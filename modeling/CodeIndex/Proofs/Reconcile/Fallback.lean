import CodeIndex.Proofs.ModulePieces
import CodeIndex.Proofs.Store.Run
import CodeIndex.Proofs.Traversal.Descent

set_option autoImplicit false

namespace CodeIndex

def ElementKind.Structural (kind : ElementKind) : Prop := kind = .class ∨ kind = .function ∨ kind = .method

namespace ModulePieces

theorem split_module (source : String) (budget : Nat) (element : Element) (member : element ∈ split source budget) :
    element.kind = .module := by
  obtain ⟨position, inside, rfl⟩ := List.mem_mapIdx.mp member
  rfl

theorem split_empty_iff (source : String) (budget : Nat) :
    split source budget = [] ↔ ∀ c ∈ source.toList, Text.isBlank c = true := by
  have whole : Text.join ['\n'] ((pieces budget source.toList).map (·.text)) = source.toList :=
    (tiles_text (pieces_tile source budget)).trans (Text.join_split '\n' source.toList)
  rw [split, List.mapIdx_eq_nil_iff, List.filter_eq_nil_iff]
  constructor
  · intro blank c inside
    rw [← whole] at inside
    rcases Text.join_mem _ _ c inside with newline | ⟨text, listed, within⟩
    · rw [List.mem_singleton.mp newline]
      decide
    · obtain ⟨piece, formed, rfl⟩ := List.mem_map.mp listed
      have dark : piece.blank = true := by simpa using blank piece formed
      exact List.all_eq_true.mp dark c within
  · intro blank piece formed
    have dark : piece.blank = true := by
      apply List.all_eq_true.mpr
      intro c within
      exact blank c (whole ▸ Text.mem_join ['\n'] _ _ (List.mem_map_of_mem formed) c within)
    simp [dark]

theorem split_module_iff (source : String) (budget : Nat) : (∃ element ∈ split source budget, element.kind = .module) ↔
    ∃ c ∈ source.toList, Text.isBlank c = false := by
  constructor
  · rintro ⟨element, member, _⟩
    have full := mt (split_empty_iff source budget).mpr (List.ne_nil_of_mem member)
    simpa using full
  · rintro ⟨c, inside, dark⟩
    have full : split source budget ≠ [] := by
      intro empty
      have blank := (split_empty_iff source budget).mp empty c inside
      rw [dark] at blank
      cases blank
    obtain ⟨element, member⟩ := List.exists_mem_of_ne_nil _ full
    exact ⟨element, member, split_module source budget element member⟩

end ModulePieces

namespace Extraction

theorem element_structural (table : NodeTable) (source : List Char) (frame : Frame) (element : Element)
    (found : element? table source frame = some element) : element.kind.Structural := by
  rcases element_cases table source frame element found with ⟨name, rfl⟩ | ⟨name, rfl⟩ | ⟨name, parent, rfl⟩
  · exact .inl rfl
  · exact .inr (.inl rfl)
  · exact .inr (.inr rfl)

theorem extract_structural (table : Option NodeTable) (tree : Node) (source : String) :
    ∀ element ∈ extract table tree source, element.kind.Structural :=
  extract_forall table tree source _ fun own frame => element_structural own source.toList frame

end Extraction

namespace Reconciler

variable (reconciler : Reconciler) (language : Language) (tree : Node) (text : String)

theorem structural_found (element : Element) (member : element ∈ reconciler.structural language tree text) :
    element ∈ Extraction.extract language.nodeTable? tree text := by
  rw [structural] at member
  split at member
  · exact member
  · exact (List.mem_filter.mp member).1

theorem structural_empty_iff : reconciler.structural language tree text = [] ↔
    ∀ element ∈ Extraction.extract language.nodeTable? tree text, element.kind = .class ∧ reconciler.classChunks = false := by
  cases counted : reconciler.classChunks with
  | true => simp [structural, counted, List.eq_nil_iff_forall_not_mem]
  | false => simp [structural, counted]

theorem select_cases (supported : language.supported = true) :
    (∃ budget, reconciler.moduleFallback = some budget ∧ reconciler.structural language tree text = [] ∧
      reconciler.select ⟨text, .ok tree⟩ language = .ok (ModulePieces.split text budget)) ∨
    (reconciler.moduleFallback = none ∨ reconciler.structural language tree text ≠ []) ∧
      reconciler.select ⟨text, .ok tree⟩ language = .ok (reconciler.structural language tree text) := by
  cases fallback : reconciler.moduleFallback with
  | none =>
      refine .inr ⟨.inl rfl, ?_⟩
      simp [select, supported, fallback, bind, Except.bind, pure, Except.pure]
  | some budget =>
      by_cases empty : reconciler.structural language tree text = []
      · refine .inl ⟨budget, rfl, empty, ?_⟩
        simp [select, supported, fallback, empty, bind, Except.bind, pure, Except.pure]
      · refine .inr ⟨.inr empty, ?_⟩
        simp [select, supported, fallback, empty, bind, Except.bind, pure, Except.pure]

theorem structural_kinds (element : Element) (member : element ∈ reconciler.structural language tree text) :
    element.kind.Structural :=
  Extraction.extract_structural _ tree text element (reconciler.structural_found language tree text element member)

theorem structural_not_module (element : Element) (member : element ∈ reconciler.structural language tree text) :
    element.kind ≠ .module := by
  rcases reconciler.structural_kinds language tree text element member with same | same | same <;> simp [same]

end Reconciler

theorem pieces_when_nothing_counts (reconciler : Reconciler) (text : String) (tree : Node) (language : Language)
    (supported : language.supported = true) :
    ∃ elements, reconciler.select ⟨text, .ok tree⟩ language = .ok elements ∧
      ((∀ element ∈ elements, element.kind.Structural) ∨ ∀ element ∈ elements, element.kind = .module) ∧
      ((∃ element ∈ elements, element.kind = .module) ↔ reconciler.moduleFallback.isSome = true ∧
        (∀ element ∈ Extraction.extract language.nodeTable? tree text,
          element.kind = .class ∧ reconciler.classChunks = false) ∧
        ∃ c ∈ text.toList, Text.isBlank c = false) ∧
      (reconciler.classChunks = true → (∃ element ∈ elements, element.kind = .module) →
        reconciler.moduleFallback.isSome = true ∧ Extraction.extract language.nodeTable? tree text = []) := by
  have uncounted := reconciler.structural_empty_iff language tree text
  obtain ⟨budget, fallback, empty, selected⟩ | ⟨counts, selected⟩ := reconciler.select_cases language tree text supported
  · have modules := ModulePieces.split_module text budget
    have dark := ModulePieces.split_module_iff text budget
    have classes := uncounted.mp empty
    refine ⟨_, selected, .inr modules, ?_, ?_⟩
    · rw [dark, fallback]
      exact ⟨fun some => ⟨rfl, classes, some⟩, fun all => all.2.2⟩
    · intro counted _
      refine ⟨by rw [fallback]; rfl, List.eq_nil_iff_forall_not_mem.mpr fun element member => ?_⟩
      have off := (classes element member).2
      rw [counted] at off
      cases off
  · have none : ¬ ∃ element ∈ reconciler.structural language tree text, element.kind = .module := by
      rintro ⟨element, member, module⟩
      exact reconciler.structural_not_module language tree text element member module
    refine ⟨_, selected, .inl (reconciler.structural_kinds language tree text), iff_of_false none ?_, fun _ some => absurd some none⟩
    rintro ⟨fallback, classes, _⟩
    rcases counts with off | full
    · simp [off] at fallback
    · exact full (uncounted.mpr classes)

def loneClassText : String := "class Only:\n    x = 1\n"

def loneClass : Node :=
  .mk "module" true ⟨0, 22, 0, 2⟩ [] [
    .mk "class_definition" true ⟨0, 21, 0, 1⟩ [("body", 3), ("name", 1)] [
      .mk "class" false ⟨0, 5, 0, 0⟩ [] [],
      .mk "identifier" true ⟨6, 10, 0, 0⟩ [] [],
      .mk ":" false ⟨10, 11, 0, 0⟩ [] [],
      .mk "block" true ⟨16, 21, 1, 1⟩ [] [
        .mk "expression_statement" true ⟨16, 21, 1, 1⟩ [] [
          .mk "assignment" true ⟨16, 21, 1, 1⟩ [("left", 0), ("right", 2)] [
            .mk "identifier" true ⟨16, 17, 1, 1⟩ [] [],
            .mk "=" false ⟨18, 19, 1, 1⟩ [] [],
            .mk "integer" true ⟨20, 21, 1, 1⟩ [] []]]]]]

theorem lone_class_indexed : ∃ elements,
    { wholeFiles with classChunks := true }.select ⟨loneClassText, .ok loneClass⟩ .python = .ok elements ∧
    ∀ element ∈ elements, element.kind ≠ .module := by
  obtain ⟨elements, selected, _, _, counted⟩ :=
    pieces_when_nothing_counts { wholeFiles with classChunks := true } loneClassText loneClass .python rfl
  have full : Extraction.extract Language.python.nodeTable? loneClass loneClassText ≠ [] := by decide +kernel
  exact ⟨elements, selected, fun element member module => full (counted rfl ⟨element, member, module⟩).2⟩

-- The tree has a class, and yet pieces of the text are chosen.
theorem lone_class_cut_into_pieces :
    (Extraction.extract Language.python.nodeTable? loneClass loneClassText).map (·.kind) = [.class] ∧
    wholeFiles.select ⟨loneClassText, .ok loneClass⟩ .python =
      .ok [⟨.module, "module_0", loneClassText, none, [], none, 0, 2⟩] :=
  ⟨by decide +kernel, by decide +kernel⟩

end CodeIndex
