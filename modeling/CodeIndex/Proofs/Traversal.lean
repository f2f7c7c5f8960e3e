import Mathlib.Data.List.Forall2
import CodeIndex.Extraction

set_option autoImplicit false

namespace CodeIndex.Extraction

def isFunction (table : NodeTable) (node : Node) : Prop := node.named = true ∧ node.kind = table.functionKind

def isClass (table : NodeTable) (node : Node) : Prop := node.named = true ∧ node.kind = table.classKind

instance (table : NodeTable) (node : Node) : Decidable (isFunction table node) :=
  inferInstanceAs (Decidable (_ ∧ _))

instance (table : NodeTable) (node : Node) : Decidable (isClass table node) :=
  inferInstanceAs (Decidable (_ ∧ _))

def className (table : NodeTable) (source : List Char) (node : Node) : String :=
  ((node.child? table.classNameField).map fun name => String.ofList (nodeText source name)).getD "unknown_class"

def functionName (table : NodeTable) (source : List Char) (node : Node) : String :=
  ((node.child? table.nameField).map fun name => String.ofList (nodeText source name)).getD "unknown_function"

def ownElement (table : NodeTable) (source : List Char) (enclosing : Option String) (node : Node) : List Element :=
  if isFunction table node then
    match enclosing with
    | none => [describe source node .function (functionName table source node) none]
    | some parent => [describe source node .method (functionName table source node) (some parent)]
  else if isClass table node then [describe source node .class (className table source node) none]
  else []

def enclosingBelow (table : NodeTable) (source : List Char) (enclosing : Option String) (node : Node) : Option String :=
  if isClass table node then some (className table source node) else enclosing

mutual
def visit (table : NodeTable) (source : List Char) (enclosing : Option String) : Node → List Element
  | .mk kind named span fields children =>
      ownElement table source enclosing (.mk kind named span fields children) ++
        visitAll table source (enclosingBelow table source enclosing (.mk kind named span fields children)) children
def visitAll (table : NodeTable) (source : List Char) (enclosing : Option String) : List Node → List Element
  | [] => []
  | node :: rest => visit table source enclosing node ++ visitAll table source enclosing rest
end

mutual
def preorder : Node → List Node
  | .mk kind named span fields children => .mk kind named span fields children :: preorderAll children
def preorderAll : List Node → List Node
  | [] => []
  | node :: rest => preorder node ++ preorderAll rest
end

def StandsFor (source : List Char) (node : Node) (element : Element) : Prop :=
  element = describe source node element.kind element.name element.parentClass

theorem visit_unfold (table : NodeTable) (source : List Char) (enclosing : Option String) (node : Node) :
    visit table source enclosing node = ownElement table source enclosing node ++
      visitAll table source (enclosingBelow table source enclosing node) node.children := by
  cases node
  rfl

theorem visit_all_children (table : NodeTable) (source : List Char) (enclosing : Option String) (nodes : List Node) :
    visitAll table source enclosing nodes = nodes.flatMap (visit table source enclosing) := by
  induction nodes with
  | nil => rfl
  | cons node rest ih => rw [visitAll, ih, List.flatMap_cons]

def enclosingClass (table : NodeTable) (source : List Char) (ancestors : List Node) : Option String :=
  (nearest? table.classKind ancestors).map fun node => nameOf source node table.classNameField unknownClass

theorem name_of_field (source : List Char) (node : Node) (field fallback : String) :
    nameOf source node field fallback =
      ((node.child? field).map fun name => String.ofList (nodeText source name)).getD fallback := by
  simp only [nameOf, fieldText?, Option.map_map]
  rfl

theorem enclosing_class_below (table : NodeTable) (source : List Char) (node : Node) (ancestors : List Node) :
    enclosingClass table source (node :: ancestors) =
      enclosingBelow table source (enclosingClass table source ancestors) node := by
  by_cases here : isClass table node
  · have nearest : nearest? table.classKind (node :: ancestors) = some node :=
      List.find?_cons_of_pos (by simpa [isClass] using here)
    simp only [enclosingClass, nearest, Option.map_some, name_of_field, enclosingBelow, if_pos here]
    rfl
  · have outer : nearest? table.classKind (node :: ancestors) = nearest? table.classKind ancestors :=
      List.find?_cons_of_neg (by simpa [isClass] using here)
    simp only [enclosingClass, outer, enclosingBelow, if_neg here]

theorem match_kind_iff (node : Node) (kind : String) (nonempty : kind ≠ "") :
    matchKind node = kind ↔ node.named = true ∧ node.kind = kind := by
  by_cases named : node.named = true
  · simp [matchKind, named]
  · simp [matchKind, named, Ne.symm nonempty]

theorem element_own (table : NodeTable) (source : List Char) (frame : Frame)
    (functions : table.functionKind ≠ "") (classes : table.classKind ≠ "") :
    (element? table source frame).toList =
      ownElement table source (enclosingClass table source frame.ancestors) frame.node := by
  by_cases function : isFunction table frame.node
  · have matched := (match_kind_iff frame.node _ functions).mpr function
    simp only [element?, if_pos matched, ownElement, if_pos function, enclosingClass]
    cases nearest? table.classKind frame.ancestors with
    | none => simp [name_of_field, functionName, unknownFunction]
    | some parent => simp [name_of_field, functionName, unknownFunction]
  · have unmatched := mt (match_kind_iff frame.node _ functions).mp function
    simp only [element?, if_neg unmatched, ownElement, if_neg function]
    by_cases here : isClass table frame.node
    · have matched := (match_kind_iff frame.node _ classes).mpr here
      simp [if_pos matched, if_pos here, name_of_field, className, unknownClass]
    · have unmatched := mt (match_kind_iff frame.node _ classes).mp here
      simp [if_neg unmatched, if_neg here]

-- The invariant of the worklist: what is still to come is the visit of each pending node, one after
-- another, under the class that its own ancestors give it.
theorem drain_visits (table : NodeTable) (source : List Char) (frames : List Frame)
    (functions : table.functionKind ≠ "") (classes : table.classKind ≠ "") :
    drain table source frames = frames.flatMap fun frame =>
      visit table source (enclosingClass table source frame.ancestors) frame.node := by
  induction frames using drain.induct with
  | case1 => rw [drain, List.flatMap_nil]
  | case2 frame rest ih =>
      have below : frame.below.flatMap (fun child =>
          visit table source (enclosingClass table source child.ancestors) child.node) =
          visitAll table source (enclosingBelow table source (enclosingClass table source frame.ancestors) frame.node)
            frame.node.children := by
        rw [visit_all_children, Frame.below, List.flatMap_map, ← enclosing_class_below]
      rw [drain, ih, List.flatMap_append, below, List.flatMap_cons, visit_unfold,
        element_own table source frame functions classes, List.append_assoc]

theorem own_element_stands (table : NodeTable) (source : List Char) (enclosing : Option String) (node : Node) :
    List.Forall₂ (StandsFor source) ([node].filter fun node => isFunction table node ∨ isClass table node)
      (ownElement table source enclosing node) := by
  by_cases function : isFunction table node
  · cases enclosing <;> simp [ownElement, function, StandsFor, describe]
  · by_cases here : isClass table node <;> simp [ownElement, function, here, StandsFor, describe]

mutual
theorem visit_stands (table : NodeTable) (source : List Char) (enclosing : Option String) (node : Node) :
    List.Forall₂ (StandsFor source) ((preorder node).filter fun node => isFunction table node ∨ isClass table node)
      (visit table source enclosing node) := by
  cases node with
  | mk kind named span fields children =>
      rw [preorder, visit, ← List.singleton_append, List.filter_append]
      exact List.rel_append (own_element_stands table source enclosing _) (visit_all_stands table source _ children)
theorem visit_all_stands (table : NodeTable) (source : List Char) (enclosing : Option String) (nodes : List Node) :
    List.Forall₂ (StandsFor source) ((preorderAll nodes).filter fun node => isFunction table node ∨ isClass table node)
      (visitAll table source enclosing nodes) := by
  cases nodes with
  | nil => exact List.Forall₂.nil
  | cons node rest =>
      rw [preorderAll, visitAll, List.filter_append]
      exact List.rel_append (visit_stands table source enclosing node) (visit_all_stands table source enclosing rest)
end

theorem language_kinds_named (language : Language) (table : NodeTable) (known : language.nodeTable? = some table) :
    table.functionKind ≠ "" ∧ table.classKind ≠ "" := by
  cases language <;> cases known <;> decide

theorem extract_is_visit (table : NodeTable) (tree : Node) (source : String) (nonempty : source ≠ "")
    (functions : table.functionKind ≠ "") (classes : table.classKind ≠ "") :
    extract (some table) tree source = visit table source.toList none tree := by
  rw [extract, if_neg nonempty, drain_visits table source.toList _ functions classes]
  exact List.append_nil _

theorem extraction_visits_in_preorder (table : NodeTable) (tree : Node) (source : String) (nonempty : source ≠ "")
    (functions : table.functionKind ≠ "") (classes : table.classKind ≠ "") :
    extract (some table) tree source = visit table source.toList none tree ∧
    List.Forall₂ (StandsFor source.toList)
      ((preorder tree).filter fun node => isFunction table node ∨ isClass table node)
      (extract (some table) tree source) ∧
    ∀ (language : Language) (own : NodeTable), language.nodeTable? = some own →
      extract language.nodeTable? tree source = visit own source.toList none tree := by
  have visited := extract_is_visit table tree source nonempty functions classes
  refine ⟨visited, ?_, ?_⟩
  · rw [visited]
    exact visit_stands table source.toList none tree
  · intro language own known
    obtain ⟨ownFunctions, ownClasses⟩ := language_kinds_named language own known
    rw [known]
    exact extract_is_visit own tree source nonempty ownFunctions ownClasses

def rubyTable : NodeTable := ⟨"class", "method", "name", "name"⟩

def wordNode (start : Nat) : Node := .mk "constant" true ⟨start, start + 1, 0, 0⟩ [] []

-- `class A` around `class B` with a method `m`, then a method `n` of `A`, then a method `f` outside.
-- The second child of `A` is the bare keyword, whose kind is that of a class.
def nestedClasses : Node :=
  .mk "program" true ⟨0, 9, 0, 0⟩ [] [
    .mk "class" true ⟨0, 7, 0, 0⟩ [("name", 0)] [
      wordNode 0,
      .mk "class" false ⟨1, 2, 0, 0⟩ [] [],
      .mk "class" true ⟨2, 5, 0, 0⟩ [("name", 0)] [
        wordNode 2,
        .mk "method" true ⟨4, 5, 0, 0⟩ [("name", 0)] [wordNode 4]],
      .mk "method" true ⟨6, 7, 0, 0⟩ [("name", 0)] [wordNode 6]],
    .mk "method" true ⟨8, 9, 0, 0⟩ [("name", 0)] [wordNode 8]]

theorem nested_classes_extracted :
    (extract (some rubyTable) nestedClasses "A B m n f").map (fun element =>
      (element.kind, element.name, element.parentClass)) =
    [(.class, "A", none), (.class, "B", none), (.method, "m", some "B"), (.method, "n", some "A"),
      (.function, "f", none)] := by
  rw [(extraction_visits_in_preorder rubyTable nestedClasses "A B m n f" (by decide) (by decide) (by decide)).1]
  decide

end CodeIndex.Extraction
