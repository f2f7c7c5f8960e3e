import CodeIndex.Proofs.Reconcile
import CodeIndex.Proofs.Reconcile.Fallback
import CodeIndex.Proofs.Traversal.Order

set_option autoImplicit false

namespace CodeIndex

structure Outline where
  kind : ElementKind
  name : String
  parentClass : Option String
  startLine : UInt64
  endLine : UInt64
deriving DecidableEq, Repr

def Element.outline (element : Element) : Outline :=
  ⟨element.kind, element.name, element.parentClass, element.startLine, element.endLine⟩

def Chunk.outline (chunk : Chunk) : Outline :=
  ⟨chunk.kind, chunk.name, chunk.parentClass, chunk.startLine, chunk.endLine⟩

-- The chunks are those of the elements, and only such as start on one line may be in another order.
structure SameButWithinLines (elements : List Element) (listed : List Chunk) : Prop where
  lines : listed.map (·.startLine) = elements.map (·.startLine)
  groups : ∀ line, ((listed.filter (·.startLine == line)).map Chunk.outline).Perm
    ((elements.filter (·.startLine == line)).map Element.outline)
  ends : listed.Pairwise fun early late => early.startLine = late.startLine → early.endLine.toInt64 ≤ late.endLine.toInt64

theorem signed_order_end (a b : Chunk) (ordered : signedOrder a b) (same : a.startLine = b.startLine) :
    a.endLine.toInt64 ≤ b.endLine.toInt64 := by
  rcases ordered with less | ⟨_, within⟩
  · rw [same, Int64.lt_iff_toInt_lt] at less
    exact absurd less (Int.lt_irrefl _)
  · exact within

theorem signed_order_start (a b : Chunk) (ordered : signedOrder a b) (smallA : a.startLine.toNat < 9223372036854775808)
    (smallB : b.startLine.toNat < 9223372036854775808) : a.startLine ≤ b.startLine := by
  rcases ordered with less | ⟨same, _⟩
  · rw [Int64.lt_iff_toInt_lt, signed_small _ smallA, signed_small _ smallB] at less
    exact UInt64.le_iff_toNat_le.mpr (by omega)
  · rw [same]
    exact UInt64.le_refl _

theorem sorted_within_lines (elements : List Element) (listed : List Chunk)
    (same : (listed.map Chunk.outline).Perm (elements.map Element.outline)) (sorted : listed.Pairwise signedOrder)
    (ordered : elements.Pairwise fun early late => early.startLine ≤ late.startLine)
    (small : ∀ element ∈ elements, element.startLine.toNat < 9223372036854775808) : SameButWithinLines elements listed := by
  have starts : (listed.map (·.startLine)).Perm (elements.map (·.startLine)) := by
    have columns := same.map (·.startLine)
    rwa [List.map_map, List.map_map] at columns
  have smallListed : ∀ chunk ∈ listed, chunk.startLine.toNat < 9223372036854775808 := by
    intro chunk member
    obtain ⟨element, present, line⟩ := List.mem_map.mp (starts.mem_iff.mp (List.mem_map_of_mem member))
    exact line ▸ small element present
  refine ⟨?_, fun line => ?_, sorted.imp fun before => signed_order_end _ _ before⟩
  · refine List.Perm.eq_of_pairwise (fun _ _ _ _ before after => UInt64.le_antisymm before after) ?_
      (List.pairwise_map.mpr ordered) starts
    exact List.pairwise_map.mpr (sorted.imp_of_mem fun left right before =>
      signed_order_start _ _ before (smallListed _ left) (smallListed _ right))
  · have group := same.filter (·.startLine == line)
    rwa [List.filter_map, List.filter_map] at group

namespace Extraction

theorem language_extract (language : Language) (tree : Node) (source : String) :
    extract language.nodeTable? tree source = [] ∨ ∃ table, language.nodeTable? = some table ∧
      table.functionKind ≠ "" ∧ table.classKind ≠ "" ∧ source ≠ "" := by
  cases known : language.nodeTable? with
  | none => exact .inl rfl
  | some table =>
      obtain ⟨functions, classes⟩ := language_kinds_named language table known
      by_cases empty : source = ""
      · exact .inl (by rw [extract, if_pos empty])
      · exact .inr ⟨table, rfl, functions, classes, empty⟩

theorem language_rows_ordered (language : Language) (tree : Node) (source : String) (laid : WellLaid tree) :
    (extract language.nodeTable? tree source).Pairwise fun early late => early.startLine ≤ late.startLine := by
  rcases language_extract language tree source with none | ⟨table, known, functions, classes, nonempty⟩
  · rw [none]
    exact .nil
  · rw [known]
    exact start_rows_ordered table functions classes tree source nonempty laid

theorem language_rows (language : Language) (tree : Node) (source : String) (element : Element)
    (member : element ∈ extract language.nodeTable? tree source) :
    ∃ node ∈ preorder tree, node.span.startRow = element.startLine := by
  rcases language_extract language tree source with none | ⟨table, known, functions, classes, nonempty⟩
  · rw [none] at member
    cases member
  · rw [known] at member
    have row : element.startLine ∈ (extract (some table) tree source).map (·.startLine) := List.mem_map_of_mem member
    rw [← matched_rows table functions classes tree source nonempty] at row
    obtain ⟨place, matched, same⟩ := List.mem_map.mp row
    refine ⟨place.node, ?_, same⟩
    rw [← places_nodes tree []]
    exact List.mem_map_of_mem (List.mem_of_mem_filter matched)

end Extraction

namespace Reconciler

theorem select_sublist (reconciler : Reconciler) (off : reconciler.moduleFallback = none) (text : String) (tree : Node)
    (language : Language) (elements : List Element) (selected : reconciler.select ⟨text, .ok tree⟩ language = .ok elements) :
    elements.Sublist (Extraction.extract language.nodeTable? tree text) := by
  cases supported : language.supported with
  | false =>
      rw [reconciler.select_unsupported _ language elements supported selected]
      exact List.nil_sublist _
  | true =>
      obtain ⟨budget, fallback, _⟩ | ⟨_, chosen⟩ := reconciler.select_cases language tree text supported
      · rw [off] at fallback
        cases fallback
      · rw [selected] at chosen
        cases chosen
        rw [structural]
        split
        · exact List.Sublist.refl _
        · exact List.filter_sublist

theorem new_chunks_outlines (fresh : Nat → ChunkId) (path : String) (language : Language) (fileId : Int)
    (embedded : List (Element × Embedding)) :
    ((newChunks fresh path language embedded).map (·.stored fileId)).map Chunk.outline =
      (embedded.map Prod.fst).map Element.outline := by
  apply List.ext_getElem
  · simp [newChunks]
  · intro i _ _
    simp [newChunks, NewChunk.ofElement, NewChunk.stored, Chunk.outline, Element.outline]

theorem reconcile_lists (reconciler : Reconciler) (fresh : Nat → ChunkId) (store after : Store) (kept : WellKept store)
    (path : String) (source : Source) (language : Language) (result : ReconcileResult)
    (done : reconciler.reconcile fresh store path source language = (.ok result, after)) :
    ∃ elements file listed, reconciler.select source language = .ok elements ∧
      after.fileByPath? path = some file ∧ after.listChunks file.id = .ok listed ∧ listed.Pairwise signedOrder ∧
      (listed.map Chunk.outline).Perm
        ((elements.filter (reconciler.embeds language store.dimensions)).map Element.outline) := by
  obtain ⟨elements, removed, selected, _, replaced⟩ := reconciler.reconcile_ok fresh store after path source language result done
  have step := upsert_file_registers store kept path language.name
  have frame := Store.replace_frame _ after _ _ removed replaced
  have rows := Store.replace_rows _ after _ _ removed replaced
  obtain ⟨listed, read, same, sorted⟩ := after.list_chunks_sorted _ _ rows
  refine ⟨elements, _, listed, selected, ?_, read, sorted, ?_⟩
  · rw [Store.fileByPath?, ← List.head?_filter, frame.files, step.only]
    rfl
  · have outlines := same.map Chunk.outline
    rwa [new_chunks_outlines, embed_all_elements] at outlines

end Reconciler

theorem elements_in_document_order (table : NodeTable) (functions : table.functionKind ≠ "") (classes : table.classKind ≠ "")
    (tree : Node) (laid : Extraction.WellLaid tree) (source : String) (nonempty : source ≠ "") :
    ((Extraction.extract (some table) tree source).Pairwise fun early late => early.startLine ≤ late.startLine) ∧
    (∀ place ∈ Extraction.matchedPlaces table tree, Extraction.nodeAt? tree place.address = some place.node) ∧
    List.Forall₂ (fun place element => Extraction.StandsFor source.toList place.node element)
      (Extraction.matchedPlaces table tree) (Extraction.extract (some table) tree source) ∧
    (Extraction.matchedPlaces table tree).Pairwise Extraction.Follows ∧
    -- Lines are stored as signed words, so the rows of the tree are numbers that such a word can hold.
    ∀ (store after : Store) (reconciler : Reconciler) (fresh : Nat → ChunkId) (path : String) (language : Language)
      (result : ReconcileResult), Reachable store → reconciler.moduleFallback = none →
      (∀ node ∈ Extraction.preorder tree, node.span.startRow.toNat < 2 ^ 63) →
      reconciler.reconcile fresh store path ⟨source, .ok tree⟩ language = (.ok result, after) →
      ∃ elements file listed, reconciler.select ⟨source, .ok tree⟩ language = .ok elements ∧
        elements.Sublist (Extraction.extract language.nodeTable? tree source) ∧
        after.fileByPath? path = some file ∧ after.listChunks file.id = .ok listed ∧
        SameButWithinLines (elements.filter (reconciler.embeds language store.dimensions)) listed := by
  refine ⟨Extraction.start_rows_ordered table functions classes tree source nonempty laid, Extraction.matched_at table tree,
    Extraction.matched_stand table functions classes tree source nonempty,
    (Extraction.matched_ordered table tree laid).imp fun both => both.2, ?_⟩
  intro store after reconciler fresh path language result reachable off small done
  obtain ⟨elements, file, listed, selected, found, read, sorted, same⟩ :=
    reconciler.reconcile_lists fresh store after (reachable_kept store reachable) path _ language result done
  have within := reconciler.select_sublist off source tree language elements selected
  have good := (List.filter_sublist (p := reconciler.embeds language store.dimensions)).trans within
  refine ⟨elements, file, listed, selected, within, found, read, sorted_within_lines _ listed same sorted ?_ ?_⟩
  · exact (Extraction.language_rows_ordered language tree source laid).sublist good
  · intro element member
    obtain ⟨node, inside, row⟩ := Extraction.language_rows language tree source element (good.subset member)
    exact row ▸ small node inside

def compactText : String := "class A; def m; end\nend\ndef f; end"

def compactClass : Node :=
  .mk "program" true ⟨0, 34, 0, 2⟩ [] [
    .mk "class" true ⟨0, 23, 0, 1⟩ [("name", 0)] [
      .mk "constant" true ⟨6, 7, 0, 0⟩ [] [],
      .mk "method" true ⟨9, 19, 0, 0⟩ [("name", 0)] [.mk "identifier" true ⟨13, 14, 0, 0⟩ [] []]],
    .mk "method" true ⟨24, 34, 2, 2⟩ [("name", 0)] [.mk "identifier" true ⟨28, 29, 2, 2⟩ [] []]]

def compactElements : List Element :=
  [⟨.class, "A", "class A; def m; end\nend", none, [], none, 0, 1⟩, ⟨.method, "m", "def m; end", none, [], some "A", 0, 0⟩,
    ⟨.function, "f", "def f; end", none, [], none, 2, 2⟩]

def withClasses : Reconciler := ⟨⟨1, fun _ => .ok [1]⟩, true, none⟩

theorem compact_class_listed_otherwise : ∃ after file listed,
    withClasses.reconcile ChunkId.serial oneFile "a.rb" ⟨compactText, .ok compactClass⟩ .ruby = (.ok ⟨1, 3, 0⟩, after) ∧
    after.fileByPath? "a.rb" = some file ∧ after.listChunks file.id = .ok listed ∧
    SameButWithinLines compactElements listed ∧ listed.map (·.outline) ≠ compactElements.map (·.outline) := by
  have counted : (withClasses.reconcile ChunkId.serial oneFile "a.rb" ⟨compactText, .ok compactClass⟩ .ruby).1 =
      .ok ⟨1, 3, 0⟩ := by decide +kernel
  have chosen : withClasses.select ⟨compactText, .ok compactClass⟩ .ruby = .ok compactElements := by decide +kernel
  rcases done : withClasses.reconcile ChunkId.serial oneFile "a.rb" ⟨compactText, .ok compactClass⟩ .ruby with ⟨returned, after⟩
  rw [done] at counted
  cases counted
  have whole := elements_in_document_order Extraction.rubyTable (by decide) (by decide) compactClass (by decide) compactText
    (by decide)
  obtain ⟨elements, file, listed, selected, _, found, read, same⟩ :=
    whole.2.2.2.2 oneFile after withClasses ChunkId.serial "a.rb" .ruby _ ⟨1, _, _, rfl, rfl⟩ rfl (by decide) done
  cases chosen.symm.trans selected
  have all : compactElements.filter (withClasses.embeds .ruby oneFile.dimensions) = compactElements :=
    List.filter_eq_self.mpr fun _ _ => rfl
  rw [all] at same
  refine ⟨after, file, listed, rfl, found, read, same, fun equal => ?_⟩
  have ends : (listed.map (·.outline)).Pairwise fun early late =>
      early.startLine = late.startLine → early.endLine.toInt64 ≤ late.endLine.toInt64 := List.pairwise_map.mpr same.ends
  rw [equal] at ends
  exact absurd ends (by decide)

end CodeIndex
