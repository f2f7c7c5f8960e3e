import CodeIndex.Proofs.Store.Run

set_option autoImplicit false

namespace CodeIndex

def NewChunk.stored (chunk : NewChunk) (fileId : Int) : Chunk where
  id := chunk.id
  fileId := fileId
  kind := chunk.kind
  name := chunk.name
  parentClass := chunk.parentClass
  startLine := chunk.startLine
  endLine := chunk.endLine
  embeddingId := chunk.id.text

def signedOrder (a b : Chunk) : Prop :=
  a.startLine.toInt64 < b.startLine.toInt64 ∨
    a.startLine = b.startLine ∧ a.endLine.toInt64 ≤ b.endLine.toInt64

def numericOrder (a b : Chunk) : Prop :=
  a.startLine.toNat < b.startLine.toNat ∨
    a.startLine.toNat = b.startLine.toNat ∧ a.endLine.toNat ≤ b.endLine.toNat

theorem kind_of_name (kind : ElementKind) : ElementKind.ofName? kind.name = some kind := by
  cases kind <;> decide

theorem new_chunk_read (chunk : NewChunk) (fileId : Int) : (chunk.row fileId).read = .ok (chunk.stored fileId) := by
  simp only [ChunkRow.read, NewChunk.row, ChunkId.of_text_text, kind_of_name, UInt64.toUInt64_toInt64]
  rfl

theorem signed_small (x : UInt64) (small : x.toNat < 9223372036854775808) : x.toInt64.toInt = x.toNat := by
  have value : x.toInt64.toInt = x.toBitVec.toInt := rfl
  have size : x.toBitVec.toNat = x.toNat := rfl
  rw [value, BitVec.toInt_eq_toNat_of_lt (by omega), size]

theorem signed_order_numeric (a b : Chunk) (ordered : signedOrder a b)
    (smallA : a.startLine.toNat < 9223372036854775808 ∧ a.endLine.toNat < 9223372036854775808)
    (smallB : b.startLine.toNat < 9223372036854775808 ∧ b.endLine.toNat < 9223372036854775808) : numericOrder a b := by
  rcases ordered with less | ⟨same, within⟩
  · rw [Int64.lt_iff_toInt_lt, signed_small _ smallA.1, signed_small _ smallB.1] at less
    exact .inl (by omega)
  · rw [Int64.le_iff_toInt_le, signed_small _ smallA.2, signed_small _ smallB.2] at within
    exact .inr ⟨congrArg UInt64.toNat same, by omega⟩

namespace Store

theorem row_before_iff (a b : ChunkRow) : rowBefore a b = true ↔
    a.startLine.toInt < b.startLine.toInt ∨ a.startLine.toInt = b.startLine.toInt ∧ a.endLine.toInt ≤ b.endLine.toInt := by
  simp only [rowBefore, Bool.or_eq_true, Bool.and_eq_true, decide_eq_true_eq, beq_iff_eq, Int64.lt_iff_toInt_lt,
    Int64.le_iff_toInt_le, Int64.toInt_inj]

theorem row_before_trans (a b c : ChunkRow) (first : rowBefore a b = true) (second : rowBefore b c = true) :
    rowBefore a c = true := by
  rw [row_before_iff] at *
  omega

theorem row_before_total (a b : ChunkRow) : (rowBefore a b || rowBefore b a) = true := by
  rw [Bool.or_eq_true, row_before_iff, row_before_iff]
  omega

theorem row_before_signed (a b : NewChunk) (fileId : Int) (before : rowBefore (a.row fileId) (b.row fileId) = true) :
    signedOrder (a.stored fileId) (b.stored fileId) := by
  simp only [rowBefore, Bool.or_eq_true, Bool.and_eq_true, decide_eq_true_eq, beq_iff_eq] at before
  rcases before with less | ⟨same, within⟩
  · exact .inl less
  · exact .inr ⟨congrArg Int64.toUInt64 same, within⟩

theorem read_rows (chunks : List NewChunk) (fileId : Int) :
    (chunks.map (·.row fileId)).mapM ChunkRow.read = .ok (chunks.map (·.stored fileId)) := by
  induction chunks with
  | nil => rfl
  | cons chunk rest ih =>
      rw [List.map_cons, List.mapM_cons, new_chunk_read, ih]
      rfl

theorem list_chunks_sorted (store : Store) (fileId : Int) (chunks : List NewChunk)
    (rows : store.rowsOf fileId = chunks.map (·.row fileId)) :
    ∃ listed, store.listChunks fileId = .ok listed ∧ listed.Perm (chunks.map (·.stored fileId)) ∧
      listed.Pairwise signedOrder := by
  let sorted := chunks.mergeSort fun a b => rowBefore (a.row fileId) (b.row fileId)
  have sortedRows : (chunks.map (·.row fileId)).mergeSort rowBefore = sorted.map (·.row fileId) := by
    symm
    apply List.map_mergeSort
    intro a _ b _
    rfl
  have ordered := List.pairwise_mergeSort (fun a b c : NewChunk => row_before_trans (a.row fileId) (b.row fileId) (c.row fileId))
    (fun a b => row_before_total (a.row fileId) (b.row fileId)) chunks
  refine ⟨sorted.map (·.stored fileId), ?_, (List.mergeSort_perm chunks _).map _, ?_⟩
  · rw [listChunks, rows, sortedRows, read_rows]
  · exact List.pairwise_map.mpr (ordered.imp fun before => row_before_signed _ _ fileId before)

theorem rows_of_own (chunks : List NewChunk) (fileId : Int) :
    (chunks.map (·.row fileId)).filter (·.fileId == fileId) = chunks.map (·.row fileId) := by
  apply List.filter_eq_self.mpr
  intro row member
  obtain ⟨chunk, _, rfl⟩ := List.mem_map.mp member
  exact beq_self_eq_true fileId

theorem rows_of_foreign (chunks : List NewChunk) (fileId other : Int) (different : other ≠ fileId) :
    (chunks.map (·.row fileId)).filter (·.fileId == other) = [] := by
  apply List.filter_eq_nil_iff.mpr
  intro row member own
  obtain ⟨chunk, _, rfl⟩ := List.mem_map.mp member
  exact different (beq_iff_eq.mp own).symm

section Replaced

variable (store after : Store) (kept : WellKept store) (fileId : Int) (chunks : List NewChunk) (removed : Nat)
  (replaced : store.replaceChunks fileId chunks = .ok (removed, after))

include replaced

theorem replace_rows : after.rowsOf fileId = chunks.map (·.row fileId) := by
  obtain ⟨_, _, rfl⟩ := (store.replace_chunks_ok_iff after fileId chunks removed).mp replaced
  have gone : (store.chunks.filter (·.fileId != fileId)).filter (·.fileId == fileId) = [] := by
    apply List.filter_eq_nil_iff.mpr
    intro row member own
    exact bne_iff_ne.mp (List.mem_filter.mp member).2 (beq_iff_eq.mp own)
  rw [rowsOf, put_chunks_chunks, drop_chunks_chunks, List.filter_append, gone, rows_of_own, List.nil_append]

theorem replace_rows_other (other : Int) (different : other ≠ fileId) : after.rowsOf other = store.rowsOf other := by
  obtain ⟨_, _, rfl⟩ := (store.replace_chunks_ok_iff after fileId chunks removed).mp replaced
  have same : (store.chunks.filter (·.fileId != fileId)).filter (·.fileId == other) =
      store.chunks.filter (·.fileId == other) := by
    rw [List.filter_filter]
    refine List.filter_congr fun row _ => ?_
    by_cases own : row.fileId = other <;> simp [own, different]
  rw [rowsOf, put_chunks_chunks, drop_chunks_chunks, List.filter_append, same, rows_of_foreign chunks fileId other different,
    List.append_nil, rowsOf]

theorem replace_frame : SameFrame store after := by
  obtain ⟨_, _, rfl⟩ := (store.replace_chunks_ok_iff after fileId chunks removed).mp replaced
  exact same_frame_trans store _ _ (store.drop_chunks_frame fileId) (put_chunks_frame fileId _ chunks)

include kept

theorem replace_lookup_new (chunk : NewChunk) (member : chunk ∈ chunks) :
    ∃ entry, after.lookup? chunk.id.text = some entry ∧ StoredFor entry chunk := by
  obtain ⟨able, _, rfl⟩ := (store.replace_chunks_ok_iff after fileId chunks removed).mp replaced
  have insertable := (store.replaceable_iff fileId chunks).mp able
  exact put_chunks_lookup fileId _ (store.drop_chunks_valid kept.vectors fileId) chunks insertable.widths able.distinct chunk member

theorem replace_lookup_old (id : String) (absent : id ∉ chunks.map (·.id.text)) :
    after.lookup? id = if id ∈ (store.rowsOf fileId).map (·.embeddingId) then none else store.lookup? id := by
  obtain ⟨able, _, rfl⟩ := (store.replace_chunks_ok_iff after fileId chunks removed).mp replaced
  have insertable := (store.replaceable_iff fileId chunks).mp able
  rw [put_chunks_lookup_other fileId _ (store.drop_chunks_valid kept.vectors fileId) chunks insertable.widths id absent,
    store.drop_chunks_lookup kept.vectors]

theorem replace_lookup_foreign (row : ChunkRow) (member : row ∈ store.chunks) (foreign : row.fileId ≠ fileId) :
    after.lookup? row.embeddingId = store.lookup? row.embeddingId := by
  have able := ((store.replace_chunks_ok_iff after fileId chunks removed).mp replaced).1
  rw [kept.embeddingIds row member]
  have absent : row.id ∉ chunks.map (·.id.text) := by
    intro listed
    obtain ⟨chunk, chunkMember, same⟩ := List.mem_map.mp listed
    exact able.unused chunk chunkMember row member foreign same.symm
  have fresh : row.id ∉ (store.rowsOf fileId).map (·.embeddingId) := by
    rw [store.stale_id_iff kept]
    rintro ⟨twin, twinMember, own, same⟩
    rw [List.inj_on_of_nodup_map kept.chunkIds twinMember member same] at own
    exact foreign own
  rw [store.replace_lookup_old after kept fileId chunks removed replaced row.id absent, if_neg fresh]

end Replaced

-- A failure after part of the batch was written is the failure of the whole.
theorem replace_fails_at (store reached : Store) (fileId : Int) (written rest : List NewChunk) (chunk : NewChunk)
    (error : StoreError) (begun : written.foldlM (insertChunk fileId) (store.dropChunks fileId).2 = .ok reached)
    (failed : insertChunk fileId reached chunk = .error error) :
    store.replaceChunks fileId (written ++ chunk :: rest) = .error error := by
  have filling : (written ++ chunk :: rest).foldlM (insertChunk fileId) (store.dropChunks fileId).2 = .error error := by
    rw [List.foldlM_append, begun]
    change (chunk :: rest).foldlM (insertChunk fileId) reached = .error error
    rw [List.foldlM_cons, failed]
    rfl
  change ((written ++ chunk :: rest).foldlM (insertChunk fileId) (store.dropChunks fileId).2 >>= fun filled =>
    pure ((store.dropChunks fileId).1, filled)) = .error error
  rw [filling]
  rfl

end Store

theorem failed_replacement_keeps (session : Session) (fileId : Int) (chunks : List NewChunk) (error : StoreError)
    (failed : session.store.replaceChunks fileId chunks = .error error) :
    session.step (.replaceChunks fileId chunks) = session := by
  rw [Session.step, failed]
  rfl

theorem replacement_all_or_nothing (store : Store) (reachable : Reachable store) (fileId : Int) (chunks : List NewChunk) :
    ((∃ removed after, store.replaceChunks fileId chunks = .ok (removed, after)) ↔
      (∀ chunk ∈ chunks, chunk.vector.length = store.dimensions) ∧ (chunks.map (·.id)).Nodup ∧
      (∀ chunk ∈ chunks, ∀ row ∈ store.chunks, row.fileId ≠ fileId → row.id ≠ chunk.id.text) ∧
      (chunks = [] ∨ ∃ file ∈ store.files, file.id = fileId)) ∧
    (∀ written chunk rest reached error, chunks = written ++ chunk :: rest →
      written.foldlM (Store.insertChunk fileId) (store.dropChunks fileId).2 = .ok reached →
      Store.insertChunk fileId reached chunk = .error error → store.replaceChunks fileId chunks = .error error) ∧
    (∀ error pending, store.replaceChunks fileId chunks = .error error →
      Session.step ⟨store, pending⟩ (.replaceChunks fileId chunks) = ⟨store, pending⟩) ∧
    ∀ removed after, store.replaceChunks fileId chunks = .ok (removed, after) →
      removed = (store.rowsOf fileId).length ∧
      (∃ listed, after.listChunks fileId = .ok listed ∧ listed.Perm (chunks.map (·.stored fileId)) ∧
        listed.Pairwise signedOrder ∧
        ((∀ chunk ∈ chunks, chunk.startLine.toNat < 2 ^ 63 ∧ chunk.endLine.toNat < 2 ^ 63) →
          listed.Pairwise numericOrder)) ∧
      (∀ chunk ∈ chunks, ∃ entry, after.lookup? chunk.id.text = some entry ∧ StoredFor entry chunk) ∧
      (∀ other, other ≠ fileId → after.rowsOf other = store.rowsOf other ∧ after.listChunks other = store.listChunks other ∧
        ∀ row ∈ store.rowsOf other, after.lookup? row.embeddingId = store.lookup? row.embeddingId) ∧
      after.files = store.files ∧ after.feedback = store.feedback ∧ after.dimensions = store.dimensions := by
  have kept := reachable_kept store reachable
  refine ⟨?_, ?_, fun error pending failed => failed_replacement_keeps ⟨store, pending⟩ fileId chunks error failed, ?_⟩
  · constructor
    · rintro ⟨removed, after, replaced⟩
      obtain ⟨able, _⟩ := (store.replace_chunks_ok_iff after fileId chunks removed).mp replaced
      exact ⟨able.widths, able.distinct, able.unused, able.owner⟩
    · rintro ⟨widths, distinct, unused, owner⟩
      exact ⟨_, _, (store.replace_chunks_ok_iff _ fileId chunks _).mpr ⟨⟨widths, distinct, unused, owner⟩, rfl, rfl⟩⟩
  · rintro written chunk rest reached error rfl begun failed
    exact store.replace_fails_at reached fileId written rest chunk error begun failed
  · intro removed after replaced
    have frame := store.replace_frame after fileId chunks removed replaced
    have rows := store.replace_rows after fileId chunks removed replaced
    refine ⟨((store.replace_chunks_ok_iff after fileId chunks removed).mp replaced).2.1, ?_,
      store.replace_lookup_new after kept fileId chunks removed replaced, ?_, frame.files, frame.feedback, frame.dimensions⟩
    · obtain ⟨listed, read, same, ordered⟩ := after.list_chunks_sorted fileId chunks rows
      refine ⟨listed, read, same, ordered, fun small => ?_⟩
      have within : ∀ chunk ∈ listed, chunk.startLine.toNat < 9223372036854775808 ∧ chunk.endLine.toNat < 9223372036854775808 := by
        intro chunk member
        obtain ⟨new, newMember, rfl⟩ := List.mem_map.mp (same.mem_iff.mp member)
        exact small new newMember
      exact ordered.imp_of_mem fun left right before => signed_order_numeric _ _ before (within _ left) (within _ right)
    · intro other different
      have others := store.replace_rows_other after fileId chunks removed replaced other different
      refine ⟨others, by rw [Store.listChunks, others, Store.listChunks], fun row member => ?_⟩
      obtain ⟨stored, own⟩ := (store.rows_of_mem other row).mp member
      exact store.replace_lookup_foreign after kept fileId chunks removed replaced row stored (own ▸ different)

def oneLiner (serial : Nat) (line : UInt64) : NewChunk where
  id := .serial serial
  kind := .function
  name := "f"
  parentClass := none
  startLine := line
  endLine := line
  content := ""
  vector := [1]
  metadata := ⟨"a.py", "python", .function, "f", none, line, line⟩

def oneFile : Store :=
  (Session.run ⟨⟨{ declaration := some (Width.declaration 1) }, 1⟩, []⟩ [.upsertFile "a.py" "python"]).store

-- The second chunk is on the last line there is, which counts as negative.
theorem replacement_lists_signed : ∃ removed after,
    oneFile.replaceChunks 1 [oneLiner 0 3, oneLiner 1 18446744073709551615] = .ok (removed, after) ∧ removed = 0 ∧
    ∃ listed, after.listChunks 1 = .ok listed ∧ listed.Pairwise signedOrder ∧
      listed.Perm [(oneLiner 0 3).stored 1, (oneLiner 1 18446744073709551615).stored 1] := by
  have whole := replacement_all_or_nothing oneFile ⟨1, _, _, rfl, rfl⟩ 1 [oneLiner 0 3, oneLiner 1 18446744073709551615]
  obtain ⟨removed, after, replaced⟩ := whole.1.mpr
    ⟨by decide, by decide, (fun _ _ _ member => nomatch member), .inr ⟨⟨1, "a.py", "python"⟩, by decide, rfl⟩⟩
  obtain ⟨count, ⟨listed, read, same, ordered, _⟩, _⟩ := whole.2.2.2 removed after replaced
  exact ⟨removed, after, replaced, count, listed, read, ordered, same⟩

end CodeIndex
