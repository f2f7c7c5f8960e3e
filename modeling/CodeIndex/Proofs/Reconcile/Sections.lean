import CodeIndex.Proofs.Reconcile.Outcome
import CodeIndex.Proofs.Store.Renaming

set_option autoImplicit false

namespace CodeIndex

structure Call where
  reconciler : Reconciler
  path : String
  source : Source
  language : Language

def Passage.ofElement (path : String) (language : Language) (element : Element) (vector : Embedding) : Passage :=
  ⟨element.kind.name, element.name, element.parentClass, element.startLine.toInt64, element.endLine.toInt64,
    some ⟨path, element.sourceText, (Metadata.ofElement path language element).toJson.compactText, vector⟩⟩

namespace Call

def selected (call : Call) : Except ParseError (List Element) := call.reconciler.select call.source call.language

def parses (call : Call) : Bool := call.selected.isOk

def embedded (call : Call) (width : Nat) : List (Element × Embedding) :=
  match call.selected with
  | .ok elements => call.reconciler.embedAll call.language width elements
  | .error _ => []

def chunks (call : Call) (fresh : Nat → ChunkId) (width : Nat) : List NewChunk :=
  Reconciler.newChunks fresh call.path call.language (call.embedded width)

def passages (call : Call) (width : Nat) : List Passage :=
  (call.embedded width).map fun (element, vector) => .ofElement call.path call.language element vector

def drawn (call : Call) (fresh : Nat → ChunkId) (width : Nat) : List ChunkId :=
  call.reconciler.drawn fresh call.source call.language width

theorem chunk_ids (call : Call) (fresh : Nat → ChunkId) (width : Nat) :
    (call.chunks fresh width).map (·.id) = call.drawn fresh width := by
  rw [drawn, Reconciler.drawn, chunks, embedded]
  change _ = match call.selected with | .ok elements => _ | .error _ => _
  cases call.selected with
  | ok elements => exact call.reconciler.chunks_for_ids fresh call.path call.language width elements
  | error error => rfl

theorem chunk_drawn (call : Call) (fresh : Nat → ChunkId) (width : Nat) (chunk : NewChunk)
    (member : chunk ∈ call.chunks fresh width) : chunk.id ∈ call.drawn fresh width := by
  rw [← chunk_ids]
  exact List.mem_map_of_mem member

theorem chunk_widths (call : Call) (fresh : Nat → ChunkId) (width : Nat) (chunk : NewChunk)
    (member : chunk ∈ call.chunks fresh width) : chunk.vector.length = width := by
  rw [chunks, embedded] at member
  cases selected : call.selected with
  | ok elements =>
      rw [selected] at member
      exact call.reconciler.chunks_for_widths fresh call.path call.language width elements chunk member
  | error error =>
      rw [selected] at member
      cases member

end Call

def Untouched (before after : Store) (fileId : Int) : Prop :=
  after.rowsOf fileId = before.rowsOf fileId ∧
    ∀ row ∈ before.rowsOf fileId, after.lookup? row.id = before.lookup? row.id

def Filled (store : Store) (fileId : Int) (chunks : List NewChunk) : Prop :=
  store.rowsOf fileId = chunks.map (·.row fileId) ∧
    ∀ chunk ∈ chunks, ∃ entry, store.lookup? chunk.id.text = some entry ∧ StoredFor entry chunk

theorem untouched_trans (first second third : Store) (fileId : Int) (before : Untouched first second fileId)
    (after : Untouched second third fileId) : Untouched first third fileId := by
  refine ⟨after.1.trans before.1, fun row member => ?_⟩
  rw [after.2 row (before.1 ▸ member), before.2 row member]

theorem untouched_filled (before after : Store) (fileId : Int) (chunks : List NewChunk)
    (untouched : Untouched before after fileId) (filled : Filled before fileId chunks) : Filled after fileId chunks := by
  refine ⟨untouched.1.trans filled.1, fun chunk member => ?_⟩
  obtain ⟨entry, found, stored⟩ := filled.2 chunk member
  have listed : chunk.row fileId ∈ before.rowsOf fileId := filled.1 ▸ List.mem_map_of_mem member
  exact ⟨entry, (untouched.2 _ listed).trans found, stored⟩

def latest {n : Nat} (calls : Fin n → Call) (path : String) (made : List (Fin n)) : Option (Fin n) :=
  made.reverse.find? fun i => (calls i).path == path

theorem latest_concat {n : Nat} (calls : Fin n → Call) (path : String) (made : List (Fin n)) (i : Fin n) :
    latest calls path (made ++ [i]) = if (calls i).path = path then some i else latest calls path made := by
  rw [latest, List.reverse_append]
  by_cases same : (calls i).path = path <;> simp [latest, same]

theorem latest_concat_some {n : Nat} (calls : Fin n → Call) (path : String) (made : List (Fin n)) (i j : Fin n)
    (last : latest calls path (made ++ [i]) = some j) :
    (j = i ∧ (calls i).path = path) ∨ ((calls i).path ≠ path ∧ latest calls path made = some j) := by
  rw [latest_concat] at last
  by_cases here : (calls i).path = path
  · rw [if_pos here] at last
    exact .inl ⟨(Option.some.inj last).symm, here⟩
  · rw [if_neg here] at last
    exact .inr ⟨here, last⟩

theorem latest_concat_none {n : Nat} (calls : Fin n → Call) (path : String) (made : List (Fin n)) (i : Fin n)
    (none : latest calls path (made ++ [i]) = none) : (calls i).path ≠ path ∧ latest calls path made = Option.none := by
  rw [latest_concat] at none
  by_cases here : (calls i).path = path
  · rw [if_pos here] at none
    cases none
  · rw [if_neg here] at none
    exact ⟨here, none⟩

theorem latest_made {n : Nat} (calls : Fin n → Call) (path : String) (made : List (Fin n)) (i : Fin n)
    (last : latest calls path made = some i) : i ∈ made ∧ (calls i).path = path :=
  ⟨List.mem_reverse.mp (List.mem_of_find?_eq_some last), by simpa using List.find?_some last⟩

theorem latest_none_iff {n : Nat} (calls : Fin n → Call) (path : String) (made : List (Fin n)) :
    latest calls path made = none ↔ ∀ i ∈ made, (calls i).path ≠ path := by
  simp [latest]

structure Minted {n : Nat} (calls : Fin n → Call) (mint : Fin n → Nat → ChunkId) (start : Store) : Prop where
  unused : ∀ i, Unused start ((calls i).drawn (mint i) start.dimensions)
  free : ∀ i, ∀ id ∈ (calls i).drawn (mint i) start.dimensions, id.text ∉ start.embeddings.map (·.embeddingId)
  apart : ∀ i j, i ≠ j → ∀ id ∈ (calls i).drawn (mint i) start.dimensions, id ∉ (calls j).drawn (mint j) start.dimensions

theorem minted_fresh {n : Nat} (calls : Fin n → Call) (mint : Fin n → Nat → ChunkId) (start : Store)
    (minted : Minted calls mint start) (i : Fin n) (id : ChunkId)
    (drawn : id ∈ (calls i).drawn (mint i) start.dimensions) : id.text ∉ start.ids := by
  intro listed
  rcases List.mem_append.mp listed with chunk | stored
  · obtain ⟨row, member, same⟩ := List.mem_map.mp chunk
    exact (minted.unused i).absent id drawn row member same
  · exact minted.free i id drawn stored

section

variable {n : Nat} (calls : Fin n → Call) (mint : Fin n → Nat → ChunkId) (start : Store)

-- What a store is after some calls have registered and some of these have swapped their chunks: its
-- counters and what no call changes, its files, and their chunks.
structure CountsHold (registered committed : List (Fin n)) (store : Store) : Prop where
  feedback : store.feedback = start.feedback
  lastFeedback : store.lastFeedback = start.lastFeedback
  declaration : store.declaration = start.declaration
  dimensions : store.dimensions = start.dimensions
  lastFile : store.lastFile = start.lastFile + registered.length
  lastEmbedding : store.lastEmbedding = start.lastEmbedding +
    (committed.map fun i => ((calls i).embedded start.dimensions).length).sum

structure FilesHold (registered : List (Fin n)) (store : Store) : Prop where
  known : ∀ old ∈ start.files, ∃ file ∈ store.files, file.id = old.id ∧ file.path = old.path
  present : ∀ i ∈ registered, ∃ file ∈ store.files, file.path = (calls i).path
  language : ∀ file ∈ store.files, ∀ i, latest calls file.path registered = some i →
    file.language = (calls i).language.name
  original : ∀ file ∈ store.files, latest calls file.path registered = none → file ∈ start.files

structure ChunksHold (committed : List (Fin n)) (store : Store) : Prop where
  filled : ∀ file ∈ store.files, ∀ i, latest calls file.path committed = some i →
    Filled store file.id ((calls i).chunks (mint i) start.dimensions)
  untouched : ∀ file ∈ store.files, latest calls file.path committed = none → Untouched start store file.id
  loose : ∀ id, store.loose? id = start.loose? id

structure Holds (registered committed : List (Fin n)) (store : Store) : Prop where
  kept : WellKept store
  within : ∀ i ∈ committed, i ∈ registered
  counts : CountsHold calls start registered committed store
  files : FilesHold calls start registered store
  chunks : ChunksHold calls mint start committed store

end

namespace Store

theorem rows_of_unassigned (store : Store) (kept : WellKept store) (fileId : Int) (beyond : store.lastFile < fileId) :
    store.rowsOf fileId = [] := by
  apply List.filter_eq_nil_iff.mpr
  intro row member own
  obtain ⟨file, known, same⟩ := List.mem_map.mp (kept.owners row member)
  have bound := kept.fileBound file known
  have number : row.fileId = fileId := by simpa using own
  omega

theorem upsert_file_origin (store : Store) (kept : WellKept store) (path language : String) (file : FileRow)
    (member : file ∈ (store.upsertFile path language).2.files) :
    (∃ old ∈ store.files, old.id = file.id ∧ old.path = file.path) ∨
      (store.lastFile < file.id ∧ ∀ old ∈ store.files, old.path ≠ file.path) := by
  rcases (store.upsert_file_mem kept path language file).mp member with rfl | ⟨old, _⟩
  · cases found : store.fileByPath? path with
    | some known =>
        obtain ⟨old, named⟩ := (store.file_by_path_iff kept path known).mp found
        rw [store.upsert_file_known path language known found]
        exact .inl ⟨known, old, rfl, rfl⟩
    | none =>
        rw [store.upsert_file_new path language found]
        refine .inr ⟨Int.lt_succ store.lastFile, fun old oldMember same => ?_⟩
        exact (store.file_by_path_none_iff path).mp found (List.mem_map.mpr ⟨old, oldMember, same⟩)
  · exact .inl ⟨file, old, rfl, rfl⟩

theorem upsert_file_keeps (store : Store) (kept : WellKept store) (path language : String) (old : FileRow)
    (member : old ∈ store.files) :
    ∃ file ∈ (store.upsertFile path language).2.files, file.id = old.id ∧ file.path = old.path := by
  have files := store.upsert_file_mem kept path language
  obtain ⟨named, _, oldId⟩ := store.upsert_file_row kept path language
  by_cases here : old.path = path
  · exact ⟨_, (files _).mpr (.inl rfl), oldId old member here, named.trans here.symm⟩
  · exact ⟨old, (files old).mpr (.inr ⟨member, here⟩), rfl, rfl⟩

theorem drop_chunks_last (store : Store) (fileId : Int) :
    (store.dropChunks fileId).2.lastEmbedding = store.lastEmbedding :=
  store.delete_vectors_last ((store.rowsOf fileId).map ChunkRow.embeddingId)

theorem put_chunks_last (fileId : Int) (store : Store) (chunks : List NewChunk) :
    (putChunks fileId store chunks).lastEmbedding = store.lastEmbedding + chunks.length := by
  induction chunks generalizing store with
  | nil => rfl
  | cons chunk rest ih =>
      have later := ih (putChunk fileId store chunk)
      change _ = store.lastEmbedding + 1 + rest.length at later
      rw [List.length_cons, ← Nat.add_assoc, Nat.add_right_comm]
      exact later

theorem replace_untouched (store after : Store) (kept : WellKept store) (fileId other : Int) (chunks : List NewChunk)
    (removed : Nat) (replaced : store.replaceChunks fileId chunks = .ok (removed, after)) (different : other ≠ fileId) :
    Untouched store after other := by
  refine ⟨store.replace_rows_other after fileId chunks removed replaced other different, fun row listed => ?_⟩
  obtain ⟨member, own⟩ := (store.rows_of_mem other row).mp listed
  rw [← kept.embeddingIds row member]
  exact store.replace_lookup_foreign after kept fileId chunks removed replaced row member (own ▸ different)

-- The file's old identifiers are gone and the new ones belong to chunks, so no other is concerned.
theorem replace_loose (store after : Store) (kept : WellKept store) (fileId : Int) (chunks : List NewChunk) (removed : Nat)
    (replaced : store.replaceChunks fileId chunks = .ok (removed, after))
    (free : ∀ chunk ∈ chunks, store.loose? chunk.id.text = none) (id : String) : after.loose? id = store.loose? id := by
  have ids : after.chunks.map (·.id) = (store.chunks.filter (·.fileId != fileId)).map (·.id) ++ chunks.map (·.id.text) := by
    obtain ⟨_, _, rfl⟩ := (store.replace_chunks_ok_iff after fileId chunks removed).mp replaced
    rw [put_chunks_chunks, drop_chunks_chunks, List.map_append, List.map_map]
    rfl
  by_cases new : id ∈ chunks.map (·.id.text)
  · have taken : id ∈ after.chunks.map (·.id) := ids ▸ List.mem_append_right _ new
    obtain ⟨chunk, member, rfl⟩ := List.mem_map.mp new
    rw [loose?, if_pos taken, free chunk member]
  · have lookups := store.replace_lookup_old after kept fileId chunks removed replaced id new
    by_cases stale : id ∈ (store.rowsOf fileId).map (·.embeddingId)
    · obtain ⟨row, member, _, same⟩ := (store.stale_id_iff kept fileId id).mp stale
      rw [if_pos stale] at lookups
      rw [loose?, lookups, ite_self, loose?, if_pos (List.mem_map.mpr ⟨row, member, same⟩)]
    · have taken : id ∈ after.chunks.map (·.id) ↔ id ∈ store.chunks.map (·.id) := by
        rw [ids, List.mem_append, or_iff_left new]
        constructor
        · intro listed
          exact (List.filter_sublist.map _).subset listed
        · intro listed
          obtain ⟨row, member, rfl⟩ := List.mem_map.mp listed
          have foreign : row.fileId ≠ fileId := fun own => stale ((store.stale_id_iff kept fileId _).mpr ⟨row, member, own, rfl⟩)
          exact List.mem_map.mpr ⟨row, List.mem_filter.mpr ⟨member, bne_iff_ne.mpr foreign⟩, rfl⟩
      rw [loose?, lookups, if_neg stale, loose?]
      simp only [taken]

end Store

namespace Holds

theorem start {n : Nat} (calls : Fin n → Call) (mint : Fin n → Nat → ChunkId) (start : Store) (kept : WellKept start) :
    Holds calls mint start [] [] start where
  kept := kept
  within := fun _ made => nomatch made
  counts := ⟨rfl, rfl, rfl, rfl, (Int.add_zero _).symm, rfl⟩
  files := ⟨fun old member => ⟨old, member, rfl, rfl⟩, fun _ made => (nomatch made), fun _ _ _ last => (nomatch last),
    fun _ member _ => member⟩
  chunks := ⟨fun _ _ _ last => (nomatch last), fun _ _ _ => ⟨rfl, fun _ _ => rfl⟩, fun _ => rfl⟩

variable {n : Nat} {calls : Fin n → Call} {mint : Fin n → Nat → ChunkId} {start : Store}
  {registered committed : List (Fin n)} {store : Store} (holds : Holds calls mint start registered committed store)

include holds

theorem register_files (i : Fin n) : FilesHold calls start (registered ++ [i])
    (store.upsertFile (calls i).path (calls i).language.name).2 := by
  have files := store.upsert_file_mem holds.kept (calls i).path (calls i).language.name
  have keeps := store.upsert_file_keeps holds.kept (calls i).path (calls i).language.name
  obtain ⟨named, speaks, _⟩ := store.upsert_file_row holds.kept (calls i).path (calls i).language.name
  generalize (store.upsertFile (calls i).path (calls i).language.name).2 = next at *
  generalize (store.upsertFile (calls i).path (calls i).language.name).1 = row at *
  have other (file : FileRow) (member : file ∈ next.files) (foreign : (calls i).path ≠ file.path) : file ∈ store.files := by
    rcases (files file).mp member with rfl | ⟨old, _⟩
    · exact absurd named.symm foreign
    · exact old
  refine ⟨?_, ?_, ?_, ?_⟩
  · intro old member
    obtain ⟨file, found, number, path⟩ := holds.files.known old member
    obtain ⟨later, laterMember, laterNumber, laterPath⟩ := keeps file found
    exact ⟨later, laterMember, laterNumber.trans number, laterPath.trans path⟩
  · intro j made
    rcases List.mem_append.mp made with before | now
    · obtain ⟨file, found, path⟩ := holds.files.present j before
      obtain ⟨later, laterMember, _, laterPath⟩ := keeps file found
      exact ⟨later, laterMember, laterPath.trans path⟩
    · rw [List.mem_singleton.mp now]
      exact ⟨row, (files row).mpr (.inl rfl), named⟩
  · intro file member j last
    obtain ⟨rfl, here⟩ | ⟨foreign, before⟩ := latest_concat_some calls file.path registered i j last
    · rcases (files file).mp member with rfl | ⟨_, foreign⟩
      · exact speaks
      · exact absurd here.symm foreign
    · exact holds.files.language file (other file member foreign) j before
  · intro file member none
    obtain ⟨foreign, before⟩ := latest_concat_none calls file.path registered i none
    exact holds.files.original file (other file member foreign) before

theorem chunk_origin (row : ChunkRow) (member : row ∈ store.chunks) : row ∈ start.chunks ∨
    ∃ i ∈ committed, ∃ id ∈ (calls i).drawn (mint i) start.dimensions, row.id = id.text := by
  obtain ⟨file, known, own⟩ := List.mem_map.mp (holds.kept.owners row member)
  have listed := (store.rows_of_mem file.id row).mpr ⟨member, own.symm⟩
  cases last : latest calls file.path committed with
  | none =>
      rw [(holds.chunks.untouched file known last).1] at listed
      exact .inl ((start.rows_of_mem file.id row).mp listed).1
  | some i =>
      rw [(holds.chunks.filled file known i last).1] at listed
      obtain ⟨chunk, chunkMember, rfl⟩ := List.mem_map.mp listed
      exact .inr ⟨i, (latest_made calls _ _ i last).1, chunk.id, (calls i).chunk_drawn _ _ chunk chunkMember, rfl⟩

theorem unused (minted : Minted calls mint start) (i : Fin n) (waiting : i ∉ committed) :
    Unused store ((calls i).drawn (mint i) store.dimensions) := by
  rw [holds.counts.dimensions]
  refine ⟨(minted.unused i).distinct, fun id drawn row stored equal => ?_⟩
  obtain old | ⟨j, made, other, otherDrawn, same⟩ := holds.chunk_origin row stored
  · exact (minted.unused i).absent id drawn row old equal
  · have different : i ≠ j := fun here => waiting (here ▸ made)
    exact minted.apart i j different id drawn (ChunkId.text_injective _ _ (equal.symm.trans same) ▸ otherDrawn)

theorem commit_replaceable (minted : Minted calls mint start) (i : Fin n) (waiting : i ∉ committed) (file : FileRow)
    (known : file ∈ store.files) :
    Store.Replaceable store file.id ((calls i).chunks (mint i) start.dimensions) := by
  have ids := (calls i).chunk_ids (mint i) start.dimensions
  have unused := holds.unused minted i waiting
  rw [holds.counts.dimensions] at unused
  refine ⟨?_, ids ▸ unused.distinct, fun chunk member row stored _ => ?_, .inr ⟨file, known, rfl⟩⟩
  · rw [holds.counts.dimensions]
    exact (calls i).chunk_widths (mint i) start.dimensions
  · exact unused.absent chunk.id ((calls i).chunk_drawn (mint i) start.dimensions chunk member) row stored

variable (keptStart : WellKept start)

include keptStart

theorem register_keeps_chunks (i : Fin n) : ChunksHold calls mint start committed
    (store.upsertFile (calls i).path (calls i).language.name).2 := by
  have step := upsert_file_registers store holds.kept (calls i).path (calls i).language.name
  have origin := store.upsert_file_origin holds.kept (calls i).path (calls i).language.name
  have rest := store.upsert_file_rest (calls i).path (calls i).language.name
  generalize (store.upsertFile (calls i).path (calls i).language.name).2 = next at *
  have same (fileId : Int) : Untouched store next fileId := ⟨step.rows fileId, fun row _ => step.lookups row.id⟩
  refine ⟨?_, ?_, ?_⟩
  · intro file member j last
    obtain ⟨old, oldMember, number, path⟩ | ⟨_, absent⟩ := origin file member
    · have filled := holds.chunks.filled old oldMember j (path ▸ last)
      exact untouched_filled store next file.id _ (same file.id) (number ▸ filled)
    · obtain ⟨made, path⟩ := latest_made calls _ _ j last
      obtain ⟨old, oldMember, oldPath⟩ := holds.files.present j (holds.within j made)
      exact absurd (oldPath.trans path) (absent old oldMember)
  · intro file member none
    obtain ⟨old, oldMember, number, path⟩ | ⟨beyond, _⟩ := origin file member
    · have untouched := holds.chunks.untouched old oldMember (path ▸ none)
      exact untouched_trans start store next file.id (number ▸ untouched) (same file.id)
    · have lastFile := holds.counts.lastFile
      have empty := start.rows_of_unassigned keptStart file.id (by omega)
      refine ⟨?_, fun chunk listed => ?_⟩
      · rw [step.rows, store.rows_of_unassigned holds.kept file.id beyond, empty]
      · rw [empty] at listed
        cases listed
  · intro id
    have chunks : next.chunks = store.chunks := by rw [rest]
    rw [← holds.chunks.loose id, Store.loose?, Store.loose?, chunks, step.lookups]

theorem register (i : Fin n) : Holds calls mint start (registered ++ [i]) committed
    (store.upsertFile (calls i).path (calls i).language.name).2 where
  kept := store.upsert_file_kept holds.kept _ _
  within := fun j made => List.mem_append_left _ (holds.within j made)
  counts := by
    rw [store.upsert_file_rest]
    refine ⟨holds.counts.feedback, holds.counts.lastFeedback, holds.counts.declaration, holds.counts.dimensions, ?_,
      holds.counts.lastEmbedding⟩
    change store.lastFile + 1 = _
    rw [holds.counts.lastFile, List.length_append]
    simp [Int.add_assoc]
  files := holds.register_files i
  chunks := holds.register_keeps_chunks keptStart i

section Commit

variable (i : Fin n) (file : FileRow) (known : file ∈ store.files) (named : file.path = (calls i).path) (after : Store)
  (removed : Nat) (replaced : store.replaceChunks file.id ((calls i).chunks (mint i) start.dimensions) = .ok (removed, after))

include known named replaced

theorem commit_swaps_chunks (minted : Minted calls mint start) : ChunksHold calls mint start (committed ++ [i]) after := by
  have kept := holds.kept
  have files := (store.replace_frame after file.id _ removed replaced).files
  have apart (other : FileRow) (foreign : (calls i).path ≠ other.path) (member : other ∈ store.files) :
      Untouched store after other.id := by
    apply store.replace_untouched after kept file.id other.id _ removed replaced
    intro same
    rw [List.inj_on_of_nodup_map kept.fileIds member known same] at foreign
    exact foreign named.symm
  refine ⟨?_, ?_, ?_⟩
  · intro other member j last
    rw [files] at member
    obtain ⟨rfl, here⟩ | ⟨foreign, before⟩ := latest_concat_some calls other.path committed i j last
    · rw [List.inj_on_of_nodup_map kept.paths member known (here.symm.trans named.symm)]
      exact ⟨store.replace_rows after file.id _ removed replaced,
        store.replace_lookup_new after kept file.id _ removed replaced⟩
    · exact untouched_filled store after other.id _ (apart other foreign member) (holds.chunks.filled other member j before)
  · intro other member none
    rw [files] at member
    obtain ⟨foreign, before⟩ := latest_concat_none calls other.path committed i none
    exact untouched_trans start store after other.id (holds.chunks.untouched other member before) (apart other foreign member)
  · intro id
    rw [← holds.chunks.loose id]
    apply store.replace_loose after kept file.id _ removed replaced
    intro chunk listed
    have drawn := (calls i).chunk_drawn (mint i) start.dimensions chunk listed
    rw [holds.chunks.loose, Store.loose?, (start.lookup_none_iff keptStart.vectors _).mpr (minted.free i chunk.id drawn), ite_self]

theorem commit (minted : Minted calls mint start) (registrar : i ∈ registered) :
    Holds calls mint start registered (committed ++ [i]) after where
  kept := store.replace_chunks_kept after holds.kept file.id _ removed replaced
  within := by
    intro j made
    rcases List.mem_append.mp made with before | now
    · exact holds.within j before
    · exact List.mem_singleton.mp now ▸ registrar
  counts := by
    have frame := store.replace_frame after file.id _ removed replaced
    have counts := holds.counts
    obtain ⟨_, _, swapped⟩ := (store.replace_chunks_ok_iff after file.id _ removed).mp replaced
    refine ⟨frame.feedback.trans counts.feedback, frame.lastFeedback.trans counts.lastFeedback,
      frame.declaration.trans counts.declaration, frame.dimensions.trans counts.dimensions,
      frame.lastFile.trans counts.lastFile, ?_⟩
    rw [swapped, Store.put_chunks_last, Store.drop_chunks_last, counts.lastEmbedding]
    simp [Call.chunks, Reconciler.newChunks, Nat.add_assoc]
  files := by
    have files := (store.replace_frame after file.id _ removed replaced).files
    refine ⟨?_, ?_, ?_, ?_⟩ <;> rw [files]
    · exact holds.files.known
    · exact holds.files.present
    · exact holds.files.language
    · exact holds.files.original
  chunks := holds.commit_swaps_chunks keptStart i file known named after removed replaced minted

end Commit

end Holds

end CodeIndex
