import CodeIndex.Proofs.Traversal.Descent

set_option autoImplicit false

namespace CodeIndex.Extraction

def RowsNested (tree : Node) : Prop := ∀ node ∈ preorder tree, ∀ child ∈ node.children,
  node.span.startRow ≤ child.span.startRow ∧ child.span.endRow ≤ node.span.endRow

instance (tree : Node) : Decidable (RowsNested tree) :=
  inferInstanceAs (Decidable (∀ node ∈ preorder tree, ∀ child ∈ node.children, _ ∧ _))

structure MethodsOwned (tree : Node) (elements : List Element) : Prop where
  parented : ∀ element ∈ elements, element.parentClass.isSome = true ↔ element.kind = .method
  preceded : ∀ (j : Nat) (method : Element), elements[j]? = some method → method.kind = .method →
    ∃ (i : Nat) (owner : Element), i < j ∧ elements[i]? = some owner ∧ owner.kind = .class ∧
      method.parentClass = some owner.name ∧
      (RowsNested tree → owner.startLine ≤ method.startLine ∧ method.endLine ≤ owner.endLine)

structure Owns (tree : Node) (source : List Char) (owner method : Element) : Prop where
  kind : owner.kind = .class
  name : method.parentClass = some owner.name
  around : ∃ outer ∈ preorder tree, ∃ inner ∈ preorder outer, StandsFor source outer owner ∧ StandsFor source inner method

-- Each method has its owner among the elements before it, of which `before` are not in the list.
def Attributed (owns : Element → Element → Prop) : List Element → List Element → Prop
  | _, [] => True
  | before, element :: rest =>
      (element.kind = .method → ∃ owner ∈ before, owns owner element) ∧ Attributed owns (before ++ [element]) rest

section Attributed

variable (owns : Element → Element → Prop)

theorem attributed_append (before front back : List Element) : Attributed owns before (front ++ back) ↔
    Attributed owns before front ∧ Attributed owns (before ++ front) back := by
  induction front generalizing before with
  | nil => simp [Attributed]
  | cons element rest ih => simp [Attributed, ih, and_assoc]

theorem attributed_flat (nodes : List Node) (elements : Node → List Element) (before : List Element)
    (each : ∀ node ∈ nodes, ∀ between, Attributed owns (before ++ between) (elements node)) :
    Attributed owns before (nodes.flatMap elements) := by
  induction nodes generalizing before with
  | nil => trivial
  | cons node rest ih =>
      rw [List.flatMap_cons, attributed_append]
      constructor
      · simpa using each node List.mem_cons_self []
      · apply ih
        intro other later between
        rw [List.append_assoc]
        exact each other (List.mem_cons_of_mem _ later) _

theorem attributed_at (before elements : List Element) (attributed : Attributed owns before elements) (j : Nat)
    (method : Element) (here : elements[j]? = some method) (kind : method.kind = .method) :
    ∃ owner ∈ before ++ elements.take j, owns owner method := by
  induction elements generalizing before j with
  | nil => cases here
  | cons element rest ih =>
      cases j with
      | zero =>
          cases here
          simpa using attributed.1 kind
      | succ j => simpa using ih (before ++ [element]) attributed.2 j here

end Attributed

def Enclosed (tree : Node) (source : List Char) (before : List Element) (enclosing : Option String) (node : Node) : Prop :=
  ∀ name, enclosing = some name → ∃ owner ∈ before, owner.kind = .class ∧ owner.name = name ∧
    ∃ outer ∈ preorder tree, node ∈ preorder outer ∧ StandsFor source outer owner

theorem enclosed_later (tree : Node) (source : List Char) (before between : List Element) (enclosing : Option String)
    (node : Node) (enclosed : Enclosed tree source before enclosing node) :
    Enclosed tree source (before ++ between) enclosing node := by
  intro name same
  obtain ⟨owner, listed, rest⟩ := enclosed name same
  exact ⟨owner, List.mem_append_left _ listed, rest⟩

section Kinds

variable (table : NodeTable) (distinct : table.classKind ≠ table.functionKind) (tree : Node) (source : List Char)

include distinct

theorem class_element (enclosing : Option String) (node : Node) (here : isClass table node) :
    ownElement table source enclosing node = [describe source node .class (className table source node) none] := by
  have other : ¬ isFunction table node := fun function => distinct (here.2.symm.trans function.2)
  simp only [ownElement, if_neg other, if_pos here]

theorem enclosed_child (before : List Element) (enclosing : Option String) (node child : Node) (inside : node ∈ preorder tree)
    (member : child ∈ node.children) (enclosed : Enclosed tree source before enclosing node) :
    Enclosed tree source (before ++ ownElement table source enclosing node)
      (enclosingBelow table source enclosing node) child := by
  intro name same
  have below := preorder_child node child member
  by_cases here : isClass table node
  · rw [enclosingBelow, if_pos here] at same
    rw [class_element table distinct source enclosing node here]
    exact ⟨_, List.mem_append_right _ (List.mem_singleton.mpr rfl), rfl, Option.some.inj same, node, inside, below, rfl⟩
  · rw [enclosingBelow, if_neg here] at same
    obtain ⟨owner, listed, kind, named, outer, within, around, stands⟩ := enclosed name same
    exact ⟨owner, List.mem_append_left _ listed, kind, named, outer, within, preorder_trans outer node child around below, stands⟩

omit distinct in
theorem own_element_attributed (before : List Element) (enclosing : Option String) (node : Node)
    (enclosed : Enclosed tree source before enclosing node) :
    Attributed (Owns tree source) before (ownElement table source enclosing node) := by
  by_cases function : isFunction table node
  · cases enclosing with
    | none => simp [ownElement, function, Attributed, describe]
    | some name =>
        obtain ⟨owner, listed, kind, rfl, outer, within, around, stands⟩ := enclosed name rfl
        rw [ownElement, if_pos function]
        exact ⟨fun _ => ⟨owner, listed, kind, rfl, outer, within, node, around, stands, rfl⟩, trivial⟩
  · by_cases here : isClass table node <;> simp [ownElement, function, here, Attributed, describe]

theorem visit_attributed (node : Node) (inside : node ∈ preorder tree) (before : List Element) (enclosing : Option String)
    (enclosed : Enclosed tree source before enclosing node) :
    Attributed (Owns tree source) before (visit table source enclosing node) := by
  induction node using node_induction generalizing before enclosing with
  | step node ih =>
      rw [visit_unfold, visit_all_children, attributed_append]
      refine ⟨own_element_attributed table tree source before enclosing node enclosed, ?_⟩
      apply attributed_flat
      intro child member between
      have below := preorder_trans tree node child inside (preorder_child node child member)
      have known := enclosed_child table distinct tree source before enclosing node child inside member enclosed
      exact ih child member below _ _ (enclosed_later tree source _ between _ child known)

end Kinds

theorem nested_rows (tree : Node) (nested : RowsNested tree) (outer inner : Node) (within : outer ∈ preorder tree)
    (below : inner ∈ preorder outer) :
    outer.span.startRow ≤ inner.span.startRow ∧ inner.span.endRow ≤ outer.span.endRow := by
  induction outer using node_induction with
  | step outer ih =>
      rcases (preorder_iff outer inner).mp below with rfl | ⟨child, member, inside⟩
      · exact ⟨UInt64.le_refl _, UInt64.le_refl _⟩
      · have here := nested outer within child member
        have there := ih child member (preorder_trans tree outer child within (preorder_child outer child member)) inside
        exact ⟨UInt64.le_trans here.1 there.1, UInt64.le_trans there.2 here.2⟩

theorem stands_rows (source : List Char) (node : Node) (element : Element) (stands : StandsFor source node element) :
    element.startLine = node.span.startRow ∧ element.endLine = node.span.endRow :=
  ⟨congrArg Element.startLine stands, congrArg Element.endLine stands⟩

theorem owns_rows (tree : Node) (source : List Char) (owner method : Element) (owns : Owns tree source owner method)
    (nested : RowsNested tree) : owner.startLine ≤ method.startLine ∧ method.endLine ≤ owner.endLine := by
  obtain ⟨outer, within, inner, below, outerStands, innerStands⟩ := owns.around
  obtain ⟨ownerStart, ownerEnd⟩ := stands_rows source outer owner outerStands
  obtain ⟨methodStart, methodEnd⟩ := stands_rows source inner method innerStands
  rw [ownerStart, ownerEnd, methodStart, methodEnd]
  exact nested_rows tree nested outer inner within below

theorem element_parented (table : NodeTable) (source : List Char) (frame : Frame) (element : Element)
    (found : element? table source frame = some element) : element.parentClass.isSome = true ↔ element.kind = .method := by
  rcases element_cases table source frame element found with ⟨name, rfl⟩ | ⟨name, rfl⟩ | ⟨name, parent, rfl⟩ <;> simp [describe]

theorem extract_attributed (table : NodeTable) (functions : table.functionKind ≠ "") (classes : table.classKind ≠ "")
    (distinct : table.classKind ≠ table.functionKind) (tree : Node) (source : String) :
    Attributed (Owns tree source.toList) [] (extract (some table) tree source) := by
  by_cases empty : source = ""
  · rw [extract, if_pos empty]
    trivial
  · rw [extract_is_visit table tree source empty functions classes]
    apply visit_attributed table distinct tree source.toList tree (preorder_self tree) [] none
    intro name same
    cases same

theorem extract_owned (table : NodeTable) (functions : table.functionKind ≠ "") (classes : table.classKind ≠ "")
    (distinct : table.classKind ≠ table.functionKind) (tree : Node) (source : String) :
    MethodsOwned tree (extract (some table) tree source) := by
  refine ⟨extract_forall _ tree source _ fun own frame => element_parented own source.toList frame, ?_⟩
  intro j method here kind
  have attributed := extract_attributed table functions classes distinct tree source
  obtain ⟨owner, listed, owns⟩ := attributed_at _ [] _ attributed j method here kind
  obtain ⟨i, found⟩ := List.mem_iff_getElem?.mp listed
  have early : i < j := by
    have bound := (List.getElem?_eq_some_iff.mp found).1
    rw [List.nil_append, List.length_take] at bound
    omega
  rw [List.nil_append, List.getElem?_take_of_lt early] at found
  exact ⟨i, owner, early, found, owns.kind, owns.name, owns_rows tree source.toList owner method owns⟩

theorem language_kinds_distinct (language : Language) (table : NodeTable) (known : language.nodeTable? = some table) :
    table.classKind ≠ table.functionKind := by
  cases language <;> cases known <;> decide

theorem methods_follow_classes (tree : Node) (source : String) :
    (∀ table : NodeTable, table.functionKind ≠ "" → table.classKind ≠ "" → table.classKind ≠ table.functionKind →
      MethodsOwned tree (extract (some table) tree source)) ∧
    ∀ language : Language, MethodsOwned tree (extract language.nodeTable? tree source) := by
  refine ⟨fun table functions classes distinct => extract_owned table functions classes distinct tree source, ?_⟩
  intro language
  cases known : language.nodeTable? with
  | none =>
      refine ⟨fun element member => ?_, fun j method here _ => ?_⟩
      · cases member
      · cases here
  | some table =>
      obtain ⟨functions, classes⟩ := language_kinds_named language table known
      exact extract_owned table functions classes (language_kinds_distinct language table known) tree source

-- A class in a class. The second name lies beyond the text, and then the method's class has no name either.
def innerMethod : Node :=
  .mk "program" true ⟨0, 30, 0, 6⟩ [] [
    .mk "class" true ⟨0, 30, 0, 6⟩ [("name", 0)] [
      wordNode 0,
      .mk "class" true ⟨10, 20, 2, 4⟩ [("name", 0)] [
        .mk "constant" true ⟨10, 11, 2, 2⟩ [] [],
        .mk "method" true ⟨12, 20, 3, 4⟩ [] []]]]

theorem inner_method_follows :
    ∃ method, (extract (some rubyTable) innerMethod "A")[2]? = some method ∧ method.parentClass = some "" ∧
    ∃ (i : Nat) (owner : Element), i < 2 ∧ (extract (some rubyTable) innerMethod "A")[i]? = some owner ∧
      owner.kind = .class ∧ owner.name = "" ∧ owner.startLine ≤ 3 ∧ 4 ≤ owner.endLine := by
  have owned := (methods_follow_classes innerMethod "A").1 rubyTable (by decide) (by decide) (by decide)
  have listed : (extract (some rubyTable) innerMethod "A")[2]? =
      some ⟨.method, "unknown_function", "", none, [], some "", 3, 4⟩ := by
    decide +kernel
  obtain ⟨i, owner, early, found, kind, name, rows⟩ := owned.preceded 2 _ listed rfl
  obtain ⟨above, under⟩ := rows (by decide)
  exact ⟨_, listed, rfl, i, owner, early, found, kind, (Option.some.inj name).symm, above, under⟩

end CodeIndex.Extraction
