import CodeIndex.IndexRun
import CodeIndex.Proofs.Reconcile.Interleaving

set_option autoImplicit false

namespace CodeIndex

namespace FoundFile

def key (file : FoundFile) : String := Path.key file.path

def language (file : FoundFile) : Language := .ofExtension (Path.extension file.path)

def fails (file : FoundFile) : Bool :=
  match file.content with
  | .source source => file.language.supported && !source.parsed.isOk
  | _ => true

def elements (file : FoundFile) (reconciler : Reconciler) : List Element :=
  match file.content with
  | .source source => (reconciler.select source file.language).toOption.getD []
  | _ => []

def embedded (file : FoundFile) (reconciler : Reconciler) (width : Nat) : List Element :=
  (file.elements reconciler).filter (reconciler.embeds file.language width)

def unembedded (file : FoundFile) (reconciler : Reconciler) (width : Nat) : List Element :=
  (file.elements reconciler).filter fun element => !reconciler.embeds file.language width element

def call (file : FoundFile) (reconciler : Reconciler) : Call :=
  match file.content with
  | .source source => ⟨reconciler, file.key, source, file.language⟩
  | _ => ⟨reconciler, file.key, ⟨"", .error .noTree⟩, .python⟩

theorem embedded_length (file : FoundFile) (reconciler : Reconciler) (width : Nat) :
    (file.elements reconciler).length - (file.embedded reconciler width).length = (file.unembedded reconciler width).length := by
  have split := List.length_eq_length_filter_add (l := file.elements reconciler) (reconciler.embeds file.language width)
  rw [embedded, unembedded]
  omega

variable (file : FoundFile) (reconciler : Reconciler)

theorem call_path : (file.call reconciler).path = file.key := by
  rw [call]
  cases file.content <;> rfl

theorem call_reconciles (fresh : Nat → ChunkId) (store : Store) : reconciler.indexFile fresh store file =
    (((file.call reconciler).reconcile fresh store).1.toOption, ((file.call reconciler).reconcile fresh store).2) := by
  rw [Reconciler.indexFile, call]
  cases file.content with
  | source source =>
      dsimp only [Call.reconcile, key, language]
      cases reconciler.reconcile fresh store (Path.key file.path) source (.ofExtension (Path.extension file.path)) with
      | mk answer after => cases answer <;> rfl
  | database tables => rfl
  | binary bytes => rfl

-- What there is to say about the call of a file: it is refused, or it has a language and elements.
theorem call_cases :
    (file.fails = true ∧ file.elements reconciler = [] ∧ ∃ error, (file.call reconciler).selected = .error error) ∨
    (file.fails = false ∧ (file.call reconciler).selected = .ok (file.elements reconciler) ∧
      (file.call reconciler).language = file.language ∧ (file.call reconciler).reconciler = reconciler) := by
  rw [fails, elements, call]
  cases file.content with
  | source source =>
      dsimp only [Call.selected]
      cases selected : reconciler.select source file.language with
      | error error =>
          obtain ⟨supported, parsed⟩ := (reconciler.select_error_iff source file.language error).mp selected
          refine .inl ⟨?_, rfl, error, rfl⟩
          rw [supported, parsed]
          rfl
      | ok elements =>
          refine .inr ⟨?_, rfl, rfl, rfl⟩
          cases parsed : source.parsed with
          | ok tree => exact Bool.and_false _
          | error error =>
              cases supported : file.language.supported with
              | false => rfl
              | true =>
                  rw [(reconciler.select_error_iff source file.language error).mpr ⟨supported, parsed⟩] at selected
                  cases selected
  | database tables => exact .inl ⟨rfl, rfl, _, rfl⟩
  | binary bytes => exact .inl ⟨rfl, rfl, _, rfl⟩

theorem call_parses : (file.call reconciler).parses = !file.fails := by
  obtain ⟨fails, _, error, selected⟩ | ⟨succeeds, selected, _⟩ := file.call_cases reconciler
  · rw [fails, (file.call reconciler).parses_error error selected]
    rfl
  · rw [succeeds, (file.call reconciler).parses_iff.mpr ⟨_, selected⟩]
    rfl

theorem call_embedded (width : Nat) :
    ((file.call reconciler).embedded width).map Prod.fst = file.embedded reconciler width := by
  rw [Call.embedded, embedded]
  obtain ⟨_, none, error, selected⟩ | ⟨_, selected, language, same⟩ := file.call_cases reconciler
  · rw [selected, none]
    rfl
  · rw [selected, language, same]
    exact reconciler.embed_all_elements file.language width _

theorem call_drawn (fresh : Nat → ChunkId) (width : Nat) :
    (file.call reconciler).drawn fresh width = (List.range (file.embedded reconciler width).length).map fresh := by
  rw [← call_embedded, List.length_map, ← Call.chunk_ids]
  apply List.ext_getElem
  · simp [Call.chunks, Reconciler.newChunks]
  · intro i _ _
    simp [Call.chunks, Reconciler.newChunks, NewChunk.ofElement]

theorem call_answer (width : Nat) : ((file.call reconciler).answer width).toOption = if file.fails then none
    else some ⟨1, (file.embedded reconciler width).length, (file.unembedded reconciler width).length⟩ := by
  obtain ⟨fails, _, error, selected⟩ | ⟨succeeds, selected, _⟩ := file.call_cases reconciler
  · rw [Call.answer, selected, fails]
    rfl
  · rw [Call.answer, selected, succeeds, ← embedded_length, ← call_embedded, List.length_map]
    rfl

end FoundFile

def tally (reconciler : Reconciler) (width : Nat) (files : List FoundFile) : IndexSummary where
  filesProcessed := (files.filter (! ·.fails)).length
  filesFailed := (files.filter (·.fails)).length
  chunksAdded := ((files.filter (! ·.fails)).map fun file => (file.embedded reconciler width).length).sum
  chunksFailed := ((files.filter (! ·.fails)).map fun file => (file.unembedded reconciler width).length).sum

theorem tally_concat (reconciler : Reconciler) (width : Nat) (files : List FoundFile) (file : FoundFile) :
    tally reconciler width (files ++ [file]) =
      (tally reconciler width files).add ((file.call reconciler).answer width).toOption := by
  rw [file.call_answer]
  cases fails : file.fails <;> simp [tally, IndexSummary.add, List.filter_append, fails]

theorem tally_added (reconciler : Reconciler) (width : Nat) (files : List FoundFile) (file : FoundFile) :
    (tally reconciler width (files ++ [file])).chunksAdded =
      (tally reconciler width files).chunksAdded + (file.embedded reconciler width).length := by
  obtain ⟨fails, none, _⟩ | ⟨succeeds, _⟩ := file.call_cases reconciler
  · simp [tally, List.filter_append, fails, FoundFile.embedded, none]
  · simp [tally, List.filter_append, succeeds]

theorem index_next_tallies (reconciler : Reconciler) (fresh : Nat → ChunkId) (width : Nat) (before : List FoundFile)
    (file : FoundFile) (now : Store) (kept : WellKept now) (fits : now.dimensions = width)
    (unused : Unused now ((file.call reconciler).drawn
      (fun k => fresh ((tally reconciler width before).chunksAdded + k)) now.dimensions)) :
    reconciler.indexNext fresh (tally reconciler width before, now) file =
      (tally reconciler width (before ++ [file]),
       ((file.call reconciler).reconcile (fun k => fresh ((tally reconciler width before).chunksAdded + k)) now).2) := by
  have answers := (file.call reconciler).reconcile_answers _ now kept unused
  rw [fits] at answers
  rw [Reconciler.indexNext, FoundFile.call_reconciles, tally_concat, answers]

-- Identifiers that no chunk and no vector has, all different.
structure Spare (store : Store) (ids : List ChunkId) : Prop where
  distinct : ids.Nodup
  free : ∀ id ∈ ids, id.text ∉ store.ids

section Run

variable (reconciler : Reconciler) (fresh : Nat → ChunkId) (store : Store) (files : List FoundFile)

def callOf (i : Fin files.length) : Call := (files.get i).call reconciler

def usedBefore (position : Nat) : Nat := (tally reconciler store.dimensions (files.take position)).chunksAdded

def processedAt : List (Fin files.length) := (List.finRange files.length).filter fun i => !(files.get i).fails

theorem processed_at_mem (i : Fin files.length) : i ∈ processedAt files ↔ (files.get i).fails = false := by
  simp [processedAt]

def mintOf (i : Fin files.length) (k : Nat) : ChunkId := fresh (usedBefore reconciler store files i + k)

theorem used_next (i : Fin files.length) : usedBefore reconciler store files (i + 1) =
    usedBefore reconciler store files i + ((files.get i).embedded reconciler store.dimensions).length := by
  rw [usedBefore, List.take_succ_eq_append_getElem i.isLt, tally_added]
  rfl

theorem used_monotone : Monotone (usedBefore reconciler store files) := by
  apply monotone_nat_of_le_succ
  intro position
  by_cases inside : position < files.length
  · rw [used_next reconciler store files ⟨position, inside⟩]
    exact Nat.le_add_right _ _
  · rw [usedBefore, usedBefore, List.take_of_length_le (by omega), List.take_of_length_le (by omega)]

theorem drawn_mem (i : Fin files.length) (id : ChunkId)
    (drawn : id ∈ (callOf reconciler files i).drawn (mintOf reconciler fresh store files i) store.dimensions) :
    ∃ number, usedBefore reconciler store files i ≤ number ∧ number < usedBefore reconciler store files (i + 1) ∧
      id = fresh number := by
  rw [callOf, FoundFile.call_drawn] at drawn
  obtain ⟨k, listed, rfl⟩ := List.mem_map.mp drawn
  refine ⟨_, Nat.le_add_right _ k, ?_, rfl⟩
  rw [used_next]
  exact Nat.add_lt_add_left (List.mem_range.mp listed) _

theorem used_within (i : Fin files.length) (number : Nat) (below : number < usedBefore reconciler store files (i + 1)) :
    number ∈ List.range (tally reconciler store.dimensions files).chunksAdded := by
  have bound := used_monotone reconciler store files (Nat.succ_le_of_lt i.isLt)
  rw [usedBefore, usedBefore, List.take_length] at bound
  exact List.mem_range.mpr (Nat.lt_of_lt_of_le below bound)

theorem used_once (i j : Fin files.length) (number : Nat) (above : usedBefore reconciler store files i ≤ number)
    (below : number < usedBefore reconciler store files (i + 1)) (alsoAbove : usedBefore reconciler store files j ≤ number)
    (alsoBelow : number < usedBefore reconciler store files (j + 1)) : i = j := by
  have notBefore : ¬ i.val + 1 ≤ j.val := fun before =>
    absurd (used_monotone reconciler store files before) (by omega)
  have notAfter : ¬ j.val + 1 ≤ i.val := fun after =>
    absurd (used_monotone reconciler store files after) (by omega)
  exact Fin.ext (by omega)

variable (spare : Spare store ((List.range (tally reconciler store.dimensions files).chunksAdded).map fresh))

include spare

theorem mint_minted : Minted (callOf reconciler files) (mintOf reconciler fresh store files) store := by
  have free (i : Fin files.length) (id : ChunkId)
      (drawn : id ∈ (callOf reconciler files i).drawn (mintOf reconciler fresh store files i) store.dimensions) :
      id.text ∉ store.ids := by
    obtain ⟨number, _, below, rfl⟩ := drawn_mem reconciler fresh store files i id drawn
    exact spare.free _ (List.mem_map_of_mem (used_within reconciler store files i number below))
  refine ⟨fun i => ⟨?_, fun id drawn row stored same => ?_⟩, fun i id drawn stored => ?_, fun i j different id drawn other => ?_⟩
  · rw [callOf, FoundFile.call_drawn]
    refine List.Nodup.map_on (fun a first b second same => ?_) List.nodup_range
    have inside (k : Nat) (listed : k ∈ List.range ((files.get i).embedded reconciler store.dimensions).length) :
        usedBefore reconciler store files i + k ∈ List.range (tally reconciler store.dimensions files).chunksAdded := by
      apply used_within reconciler store files i
      rw [used_next]
      exact Nat.add_lt_add_left (List.mem_range.mp listed) _
    exact Nat.add_left_cancel (List.inj_on_of_nodup_map spare.distinct (inside a first) (inside b second) same)
  · exact free i id drawn (List.mem_append_left _ (List.mem_map.mpr ⟨row, stored, same⟩))
  · exact free i id drawn (List.mem_append_right _ stored)
  · obtain ⟨a, aboveA, belowA, rfl⟩ := drawn_mem reconciler fresh store files i id drawn
    obtain ⟨b, aboveB, belowB, same⟩ := drawn_mem reconciler fresh store files j _ other
    have equal : a = b := List.inj_on_of_nodup_map spare.distinct (used_within reconciler store files i a belowA)
      (used_within reconciler store files j b belowB) same
    exact different (used_once reconciler store files i j a aboveA belowA (equal ▸ aboveB) (equal ▸ belowB))

variable (kept : WellKept store)

include kept

-- The induction is on how far the run has come: what the files before have left does not change what the next call returns.
theorem run_so_far (position : Nat) (inside : position ≤ files.length) :
    (files.take position).foldl (reconciler.indexNext fresh) ({}, store) =
      (tally reconciler store.dimensions (files.take position),
       Moment.inTurn (callOf reconciler files) (mintOf reconciler fresh store files) store
        ((List.finRange files.length).take position)) := by
  induction position with
  | zero => rfl
  | succ position ih =>
      let i : Fin files.length := ⟨position, inside⟩
      have once := List.nodup_finRange files.length
      have later : (List.finRange files.length).take (position + 1) = (List.finRange files.length).take position ++ [i] := by
        rw [List.take_succ_eq_append_getElem (by rw [List.length_finRange]; exact inside), List.getElem_finRange]
        rfl
      have waiting : i ∉ (List.finRange files.length).take position := by
        have apart := once.sublist (List.take_sublist (position + 1) _)
        rw [later] at apart
        exact fun member => (List.nodup_append.mp apart).2.2 i member i (List.mem_singleton.mpr rfl) rfl
      have minted := mint_minted reconciler fresh store files spare
      have holds := in_turn_once_holds (callOf reconciler files) (mintOf reconciler fresh store files) store kept minted _
        (once.sublist (List.take_sublist position _))
      have unused := holds.unused minted i fun made => waiting (List.mem_of_mem_filter made)
      have step := index_next_tallies reconciler fresh store.dimensions (files.take position) (files.get i) _ holds.kept
        holds.counts.dimensions unused
      rw [later, Moment.in_turn_concat, List.take_succ_eq_append_getElem inside, List.foldl_append,
        ih (Nat.le_of_succ_le inside), List.foldl_cons, List.foldl_nil]
      exact step

theorem run_in_order : files.foldl (reconciler.indexNext fresh) ({}, store) =
    (tally reconciler store.dimensions files,
     Moment.inTurn (callOf reconciler files) (mintOf reconciler fresh store files) store (List.finRange files.length)) := by
  have whole := run_so_far reconciler fresh store files spare kept files.length (Nat.le_refl _)
  rw [List.take_length, List.take_of_length_le (by simp)] at whole
  exact whole

theorem run_holds : Holds (callOf reconciler files) (mintOf reconciler fresh store files) store (processedAt files)
    (processedAt files) (files.foldl (reconciler.indexNext fresh) ({}, store)).2 := by
  have holds := in_turn_once_holds (callOf reconciler files) (mintOf reconciler fresh store files) store kept
    (mint_minted reconciler fresh store files spare) _ (List.nodup_finRange files.length)
  simp only [callOf, FoundFile.call_parses] at holds
  rw [run_in_order reconciler fresh store files spare kept]
  exact holds

end Run

theorem latest_processed (reconciler : Reconciler) (files : List FoundFile) (path : String) :
    (latest (callOf reconciler files) path (processedAt files)).map files.get =
      (files.filter (! ·.fails)).reverse.find? (·.key == path) := by
  have positions : (processedAt files).map files.get = files.filter (! ·.fails) := by
    have filtered := List.filter_map (p := (! ·.fails)) (f := files.get) (l := List.finRange files.length)
    rw [List.map_get_finRange] at filtered
    exact filtered.symm
  rw [← positions, ← List.map_reverse, List.find?_map, latest]
  simp only [callOf, FoundFile.call_path]
  rfl

def Store.rowsAt (store : Store) (path : String) : List ChunkRow :=
  ((store.fileByPath? path).map fun file => store.rowsOf file.id).getD []

structure Unchanged (before after : Store) (path : String) : Prop where
  file : after.fileByPath? path = before.fileByPath? path
  chunks : ∀ file, before.fileByPath? path = some file → Untouched before after file.id

namespace Holds

variable {n : Nat} {calls : Fin n → Call} {mint : Fin n → Nat → ChunkId} {start : Store}
  {registered committed : List (Fin n)} {store : Store} (holds : Holds calls mint start registered committed store)

include holds

theorem original_iff (keptStart : WellKept start) (path : String) (never : latest calls path registered = none)
    (file : FileRow) (named : file.path = path) : file ∈ store.files ↔ file ∈ start.files := by
  constructor
  · intro member
    exact holds.files.original file member (named ▸ never)
  · intro before
    obtain ⟨later, member, _, path⟩ := holds.files.known file before
    have old := holds.files.original later member (by rw [path, named, never])
    rw [List.inj_on_of_nodup_map keptStart.paths before old path.symm]
    exact member

theorem unchanged (keptStart : WellKept start) (path : String) (never : latest calls path registered = none) :
    Unchanged start store path := by
  have uncommitted : latest calls path committed = none := by
    rw [latest_none_iff] at never ⊢
    exact fun i made => never i (holds.within i made)
  refine ⟨Option.ext fun file => ?_, fun file found => ?_⟩
  · rw [store.file_by_path_iff holds.kept, start.file_by_path_iff keptStart]
    exact and_congr_left (holds.original_iff keptStart path never file)
  · obtain ⟨before, named⟩ := (start.file_by_path_iff keptStart path file).mp found
    have member := (holds.original_iff keptStart path never file named).mpr before
    exact holds.chunks.untouched file member (named ▸ uncommitted)

theorem rows_at (path : String) (i : Fin n) (last : latest calls path committed = some i) : ∃ fileId,
    store.rowsAt path = ((calls i).chunks (mint i) start.dimensions).map (·.row fileId) := by
  obtain ⟨made, named⟩ := latest_made calls path committed i last
  obtain ⟨file, member, same⟩ := holds.files.present i (holds.within i made)
  have here : file.path = path := same.trans named
  refine ⟨file.id, ?_⟩
  rw [Store.rowsAt, (store.file_by_path_iff holds.kept path file).mpr ⟨member, here⟩]
  exact (holds.chunks.filled file member i (here ▸ last)).1

end Holds

namespace IndexOptions

def accepted (options : IndexOptions) (files : List FoundFile) : List FoundFile :=
  files.filter fun file => options.accepts (Path.extension file.path)

def processed (options : IndexOptions) (files : List FoundFile) : List FoundFile :=
  (options.accepted files).filter (! ·.fails)

theorem processed_sublist (options : IndexOptions) (files : List FoundFile) : (options.processed files).Sublist files :=
  List.filter_sublist.trans List.filter_sublist

theorem processed_mem (options : IndexOptions) (files : List FoundFile) (file : FoundFile) :
    file ∈ options.processed files ↔
      file ∈ files ∧ options.accepts (Path.extension file.path) = true ∧ file.fails = false := by
  rw [processed, accepted, List.mem_filter, List.mem_filter, Bool.not_eq_true', and_assoc]

def last? (options : IndexOptions) (files : List FoundFile) (key : String) : Option FoundFile :=
  (options.processed files).reverse.find? (·.key == key)

theorem latest_last (options : IndexOptions) (reconciler : Reconciler) (files : List FoundFile) (key : String) :
    (latest (callOf reconciler (options.accepted files)) key (processedAt (options.accepted files))).map
      (options.accepted files).get = options.last? files key :=
  latest_processed reconciler (options.accepted files) key

theorem last_none_iff (options : IndexOptions) (files : List FoundFile) (key : String) :
    options.last? files key = none ↔ ∀ file ∈ options.processed files, file.key ≠ key := by
  simp [last?]

theorem last_distinct (options : IndexOptions) (files : List FoundFile)
    (keys : ((options.processed files).map (·.key)).Nodup) (file : FoundFile) (processed : file ∈ options.processed files) :
    options.last? files file.key = some file := by
  refine (find_by_key FoundFile.key _ ?_ file.key file).mpr ⟨List.mem_reverse.mpr processed, rfl⟩
  rw [List.map_reverse]
  exact List.nodup_reverse.mpr keys

end IndexOptions

def Reconciler.idsFor (reconciler : Reconciler) (options : IndexOptions) (fresh : Nat → ChunkId) (width : Nat)
    (files : List FoundFile) : List ChunkId :=
  (List.range ((options.processed files).map fun file => (file.embedded reconciler width).length).sum).map fresh

section IndexFiles

variable (reconciler : Reconciler) (options : IndexOptions) (files : List FoundFile) (fresh : Nat → ChunkId) (store : Store)
  (kept : WellKept store) (spare : Spare store (reconciler.idsFor options fresh store.dimensions files))

include kept spare

theorem index_files_tally :
    (reconciler.indexFiles options fresh store files).1 = tally reconciler store.dimensions (options.accepted files) :=
  congrArg Prod.fst (run_in_order reconciler fresh store (options.accepted files) spare kept)

theorem index_files_hold : Holds (callOf reconciler (options.accepted files))
    (mintOf reconciler fresh store (options.accepted files)) store (processedAt (options.accepted files))
    (processedAt (options.accepted files)) (reconciler.indexFiles options fresh store files).2 :=
  run_holds reconciler fresh store (options.accepted files) spare kept

theorem index_files_unchanged (path : String) (other : ∀ file ∈ options.processed files, file.key ≠ path) :
    Unchanged store (reconciler.indexFiles options fresh store files).2 path := by
  apply (index_files_hold reconciler options files fresh store kept spare).unchanged kept path
  have none := (options.last_none_iff files path).mpr other
  rw [← options.latest_last reconciler] at none
  exact Option.map_eq_none_iff.mp none

theorem index_files_rows (path : String) (file : FoundFile) (last : options.last? files path = some file) :
    ((reconciler.indexFiles options fresh store files).2.rowsAt path).length =
      (file.embedded reconciler store.dimensions).length ∧
    ∀ row ∈ (reconciler.indexFiles options fresh store files).2.rowsAt path, row.id ∉ store.ids := by
  have holds := index_files_hold reconciler options files fresh store kept spare
  rw [← options.latest_last reconciler] at last
  obtain ⟨i, here, rfl⟩ := Option.map_eq_some_iff.mp last
  obtain ⟨fileId, rows⟩ := holds.rows_at path i here
  rw [rows]
  constructor
  · rw [← FoundFile.call_embedded, List.length_map, List.length_map]
    exact List.length_mapIdx
  · intro row listed
    obtain ⟨chunk, member, rfl⟩ := List.mem_map.mp listed
    exact minted_fresh _ _ store (mint_minted reconciler fresh store _ spare) i chunk.id (Call.chunk_drawn _ _ _ chunk member)

end IndexFiles
end CodeIndex
