import Mathlib.Data.Set.List
import CodeIndex.Proofs.Agreement

set_option autoImplicit false

namespace CodeIndex

def Store.Filed (store : Store) : Prop := ∀ row ∈ store.chunks, ∃ chunk : NewChunk, row = chunk.row row.fileId

namespace Store

theorem fewer_filed (before after : Store) (filed : before.Filed) (fewer : after.chunks ⊆ before.chunks) :
    after.Filed := fun row member => filed row (fewer member)

theorem replace_filed (store after : Store) (filed : store.Filed) (fileId : Int) (chunks : List NewChunk) (removed : Nat)
    (replaced : store.replaceChunks fileId chunks = .ok (removed, after)) : after.Filed := by
  intro row member
  have listed := (after.rows_of_mem row.fileId row).mpr ⟨member, rfl⟩
  by_cases own : row.fileId = fileId
  · rw [own, store.replace_rows after fileId chunks removed replaced] at listed
    obtain ⟨chunk, _, same⟩ := List.mem_map.mp listed
    exact ⟨chunk, own ▸ same.symm⟩
  · rw [store.replace_rows_other after fileId chunks removed replaced row.fileId own] at listed
    exact filed row ((store.rows_of_mem row.fileId row).mp listed).1

theorem delete_file_fewer (store : Store) (path : String) : (store.deleteFile path).2.chunks ⊆ store.chunks := by
  obtain ⟨_, same⟩ | ⟨file, _, same⟩ := store.delete_file_cases path
  · rw [same]
    exact List.Subset.refl _
  · rw [same]
    exact fun row member => ((store.drop_chunks_mem file.id row).mp member).1

end Store

theorem Session.step_filed (session : Session) (kept : WellKept session.store) (filed : session.store.Filed)
    (operation : Operation) : (session.step operation).store.Filed := by
  have fewer := fun after => Store.fewer_filed session.store after filed
  apply session.step_store operation Store.Filed filed
  · exact fun path language => fewer _ (by rw [Store.upsert_file_rest]; exact List.Subset.refl _)
  · exact fun fileId chunks removed after => session.store.replace_filed after filed fileId chunks removed
  · exact fun path => fewer _ (session.store.delete_file_fewer path)
  · exact fewer _ (List.nil_subset _)
  · intro width after rebuilt
    obtain ⟨_, rfl⟩ := (session.store.rebuild_ok_iff after width).mp rebuilt
    exact fewer _ (List.nil_subset _)
  · exact fun chunkId kind comment => filed
  · intro requested after opened
    rw [session.store.reopen_same kept requested] at opened
    exact Except.ok.inj opened ▸ filed
  · intro _ id content vector metadata after upserted
    obtain ⟨_, rfl⟩ := (session.store.upsert_vector_ok_iff after id content vector metadata).mp upserted
    exact filed
  · exact fun _ ids => fewer _ (by rw [(session.store.delete_vectors_frame ids).2]; exact List.Subset.refl _)

theorem Session.run_filed (session : Session) (kept : WellKept session.store) (filed : session.store.Filed)
    (operations : List Operation) : (session.run operations).store.Filed := by
  induction operations generalizing session with
  | nil => exact filed
  | cons operation rest ih =>
      exact ih (session.step operation) (session.step_kept kept operation) (session.step_filed kept filed operation)

theorem reachable_filed (store : Store) (reachable : Reachable store) : store.Filed := by
  obtain ⟨requested, opened, operations, fresh, rfl⟩ := reachable
  have consistent := Store.opened_consistent requested opened fresh
  refine Session.run_filed ⟨opened, []⟩ consistent.kept (fun row member => ?_) operations
  obtain ⟨_, _, same⟩ := (bind_ok_iff (Width.check requested) _ opened).mp fresh
  cases same
  cases member

def Chunk.Keyed (chunk : Chunk) : Prop := chunk.embeddingId = chunk.id.text ∧ ChunkId.ofText? chunk.embeddingId = some chunk.id

theorem stored_keyed (chunk : NewChunk) (fileId : Int) : (chunk.stored fileId).Keyed := ⟨rfl, chunk.id.of_text_text⟩

namespace Store

theorem rows_filed (store : Store) (filed : store.Filed) (fileId : Int) :
    ∃ chunks : List NewChunk, store.rowsOf fileId = chunks.map (·.row fileId) := by
  have each : ∀ row ∈ store.rowsOf fileId, row ∈ Set.range fun chunk : NewChunk => chunk.row fileId := by
    intro row listed
    obtain ⟨member, rfl⟩ := (store.rows_of_mem fileId row).mp listed
    obtain ⟨chunk, same⟩ := filed row member
    exact ⟨chunk, same.symm⟩
  have all : store.rowsOf fileId ∈ Set.range (List.map fun chunk : NewChunk => chunk.row fileId) := by
    rw [Set.range_list_map]
    exact each
  obtain ⟨chunks, same⟩ := all
  exact ⟨chunks, same.symm⟩

theorem list_chunks_keyed (store : Store) (filed : store.Filed) (fileId : Int) :
    ∃ listed, store.listChunks fileId = .ok listed ∧ ∀ chunk ∈ listed, chunk.Keyed := by
  obtain ⟨chunks, rows⟩ := store.rows_filed filed fileId
  obtain ⟨listed, read, same, _⟩ := store.list_chunks_sorted fileId chunks rows
  refine ⟨listed, read, fun chunk member => ?_⟩
  obtain ⟨new, _, rfl⟩ := List.mem_map.mp (same.mem_iff.mp member)
  exact stored_keyed new fileId

theorem get_chunk_keyed (store : Store) (filed : store.Filed) (text : String) :
    ∃ found, store.getChunk text = .ok found ∧ ∀ chunk ∈ found, chunk.Keyed ∧ chunk.id.text = text := by
  rw [getChunk]
  cases look : store.chunks.find? (·.id == text) with
  | none =>
      refine ⟨none, rfl, ?_⟩
      rintro chunk ⟨⟩
  | some row =>
      obtain ⟨new, same⟩ := filed row (List.mem_of_find?_eq_some look)
      have named : row.id = text := by simpa using List.find?_some look
      have read := new_chunk_read new row.fileId
      have id : new.id.text = row.id := (congrArg ChunkRow.id same).symm
      rw [← same] at read
      refine ⟨some (new.stored row.fileId), congrArg (Except.map some) read, ?_⟩
      rintro chunk ⟨⟩
      exact ⟨stored_keyed new row.fileId, id.trans named⟩

end Store

namespace ChunkId

def canonical? (text : String) : Option String := (ofText? text).map ChunkId.text

theorem canonical_iff (a b : String) : ofText? a = ofText? b ↔ canonical? a = canonical? b :=
  (Option.map_injective fun x y => text_injective x y).eq_iff.symm

theorem canonical_settles (text shown : String) (canonical : canonical? text = some shown) : canonical? shown = some shown := by
  obtain ⟨id, _, rfl⟩ := Option.map_eq_some_iff.mp canonical
  rw [canonical?, of_text_text]
  rfl

end ChunkId

theorem identifiers_survive_text :
    (∀ id : ChunkId, id.text.toList.length = 36 ∧ id.text.toList = ChunkId.hyphenate id.digits ∧
      (∀ c ∈ id.digits, ('0' ≤ c ∧ c ≤ '9') ∨ ('a' ≤ c ∧ c ≤ 'f')) ∧ ChunkId.ofText? id.text = some id) ∧
    (∀ text, (∃ id, ChunkId.ofText? text = some id) ↔ ∃ named digits, Text.lowerAscii named = "urn:uuid:".toList ∧
      digits.length = 32 ∧ (∀ c ∈ digits, ChunkId.HexDigit c) ∧ text.toList ∈ ChunkId.forms named digits) ∧
    (∀ text id, ChunkId.ofText? text = some id ↔ ∃ named digits, Text.lowerAscii named = "urn:uuid:".toList ∧
      Text.lowerAscii digits = id.digits ∧ text.toList ∈ ChunkId.forms named digits) ∧
    (∀ a b, ChunkId.ofText? a = ChunkId.ofText? b ↔ ChunkId.canonical? a = ChunkId.canonical? b) ∧
    (∀ text shown, ChunkId.canonical? text = some shown → ChunkId.canonical? shown = some shown) ∧
    (∀ (store after : Store) (fileId : Int) (chunks : List NewChunk) (removed : Nat), Reachable store →
      store.replaceChunks fileId chunks = .ok (removed, after) →
      (∃ listed, after.listChunks fileId = .ok listed ∧ listed.Perm (chunks.map (·.stored fileId))) ∧
      ∀ chunk ∈ chunks, after.getChunk chunk.id.text = .ok (some (chunk.stored fileId))) ∧
    ∀ store, Reachable store →
      (∀ fileId, ∃ listed, store.listChunks fileId = .ok listed ∧ ∀ chunk ∈ listed, chunk.Keyed) ∧
      ∀ text, ∃ found, store.getChunk text = .ok found ∧ ∀ chunk ∈ found, chunk.Keyed ∧ chunk.id.text = text := by
  refine ⟨fun id => ⟨?_, ?_, id.digits_small, id.of_text_text⟩, ChunkId.accepted_iff, ChunkId.of_text_iff,
    ChunkId.canonical_iff, ChunkId.canonical_settles, ?_, ?_⟩
  · rw [ChunkId.text, String.toList_ofList, ChunkId.hyphenate_length _ id.digits_length]
  · rw [ChunkId.text, String.toList_ofList]
  · intro store after fileId chunks removed reachable replaced
    have kept := reachable_kept store reachable
    have rows := store.replace_rows after fileId chunks removed replaced
    obtain ⟨listed, read, same, _⟩ := after.list_chunks_sorted fileId chunks rows
    refine ⟨⟨listed, read, same⟩, fun chunk member => ?_⟩
    have written : chunk.row fileId ∈ after.rowsOf fileId := rows ▸ List.mem_map_of_mem member
    exact get_chunk_described after (store.replace_chunks_kept after kept fileId chunks removed replaced) chunk fileId
      ((after.rows_of_mem fileId _).mp written).1
  · intro store reachable
    have filed := reachable_filed store reachable
    exact ⟨store.list_chunks_keyed filed, store.get_chunk_keyed filed⟩

theorem shelved_identifier_read_back : ∃ removed after,
    oneFile.replaceChunks 1 [oneLiner 0 3, oneLiner 1 3] = .ok (removed, after) ∧
    after.getChunk "5e1c0de5-a7b1-4c3d-8f00-000000000000" = .ok (some ((oneLiner 0 3).stored 1)) ∧
    ChunkId.ofText? "\x7b5E1C0DE5-A7b1-4c3d-8F00-000000000000\x7d" = some (ChunkId.serial 0) := by
  have able : Store.Replaceable oneFile 1 [oneLiner 0 3, oneLiner 1 3] :=
    ⟨by decide, by decide, (fun _ _ _ member => nomatch member), .inr ⟨⟨1, "a.py", "python"⟩, by decide, rfl⟩⟩
  have replaced := (Store.replace_chunks_ok_iff _ _ _ _ _).mpr ⟨able, rfl, rfl⟩
  obtain ⟨-, -, denotes, -, -, readBack, -⟩ := identifiers_survive_text
  refine ⟨_, _, replaced, ?_, ?_⟩
  · exact (readBack oneFile _ 1 _ _ ⟨1, _, _, rfl, rfl⟩ replaced).2 (oneLiner 0 3) List.mem_cons_self
  · exact (denotes _ _).mpr ⟨"urn:uuid:".toList, "5E1C0DE5A7b14c3d8F00000000000000".toList, by decide, by decide, by decide⟩

-- Capital letters in the scheme are read too, although the text has none of the forms with a small one.
theorem capital_scheme_read :
    ChunkId.ofText? "URN:UUID:67e55044-10b1-426f-9247-bb680e5fe0c8" = some ⟨0x67e5504410b1426f9247bb680e5fe0c8⟩ ∧
    ¬ ∃ digits, digits.length = 32 ∧ (∀ c ∈ digits, ChunkId.HexDigit c) ∧
      "URN:UUID:67e55044-10b1-426f-9247-bb680e5fe0c8".toList ∈ ChunkId.forms "urn:uuid:".toList digits := by
  refine ⟨by decide +kernel, ?_⟩
  rintro ⟨digits, size, -, formed⟩
  have grouped := ChunkId.hyphenate_length digits size
  simp only [ChunkId.forms, List.mem_cons, List.not_mem_nil, or_false] at formed
  rcases formed with bare | hyphenated | braced | named
  · have lengths := congrArg List.length bare
    rw [size] at lengths
    exact absurd lengths (by decide)
  · have lengths := congrArg List.length hyphenated
    rw [grouped] at lengths
    exact absurd lengths (by decide)
  · have first : some 'U' = some '\x7b' := congrArg List.head? braced
    exact absurd first (by decide)
  · have first : some 'U' = some 'u' := congrArg List.head? named
    exact absurd first (by decide)

end CodeIndex
