import CodeIndex.Proofs.Traversal.Descent

set_option autoImplicit false

namespace CodeIndex

def Span.Inside (inner outer : Span) : Prop :=
  (outer.startByte ≤ inner.startByte ∧ inner.startByte ≤ inner.endByte ∧ inner.endByte ≤ outer.endByte) ∧
    outer.startRow ≤ inner.startRow ∧ inner.startRow ≤ inner.endRow ∧ inner.endRow ≤ outer.endRow

def Span.Precedes (early late : Span) : Prop := early.endByte ≤ late.startByte ∧ early.endRow ≤ late.startRow

instance (inner outer : Span) : Decidable (inner.Inside outer) := inferInstanceAs (Decidable (_ ∧ _))

instance (early late : Span) : Decidable (early.Precedes late) := inferInstanceAs (Decidable (_ ∧ _))

namespace Extraction

def WellLaid (tree : Node) : Prop := ∀ node ∈ preorder tree,
  (∀ child ∈ node.children, child.span.Inside node.span) ∧
    node.children.IsChain fun early late => early.span.Precedes late.span

instance (tree : Node) : Decidable (WellLaid tree) :=
  inferInstanceAs (Decidable (∀ node ∈ preorder tree, _ ∧ _))

structure Place where
  address : List Nat
  node : Node

def nodeAt? : Node → List Nat → Option Node
  | node, [] => some node
  | node, position :: rest => (node.children[position]?).bind (nodeAt? · rest)

mutual
def places (address : List Nat) : Node → List Place
  | .mk kind named span fields children =>
      ⟨address, .mk kind named span fields children⟩ :: placesAll address 0 children
def placesAll (address : List Nat) (position : Nat) : List Node → List Place
  | [] => []
  | node :: rest => places (address ++ [position]) node ++ placesAll address (position + 1) rest
end

def matchedPlaces (table : NodeTable) (tree : Node) : List Place :=
  (places [] tree).filter fun place => isFunction table place.node ∨ isClass table place.node

def Follows (early late : Place) : Prop :=
  (early.address <+: late.address ∧ early.address ≠ late.address ∧ late.node.span.Inside early.node.span) ∨
    early.node.span.Precedes late.node.span

theorem inside_self (inner outer : Span) (inside : inner.Inside outer) : inner.Inside inner :=
  ⟨⟨Nat.le_refl _, inside.1.2.1, Nat.le_refl _⟩, UInt64.le_refl _, inside.2.2.1, UInt64.le_refl _⟩

theorem inside_trans (inner middle outer : Span) (here : inner.Inside middle) (there : middle.Inside outer) :
    inner.Inside outer :=
  ⟨⟨Nat.le_trans there.1.1 here.1.1, here.1.2.1, Nat.le_trans here.1.2.2 there.1.2.2⟩,
    UInt64.le_trans there.2.1 here.2.1, here.2.2.1, UInt64.le_trans here.2.2.2 there.2.2.2⟩

theorem precedes_within (early left late right : Span) (earlyInside : early.Inside left) (lateInside : late.Inside right)
    (precedes : left.Precedes right) : early.Precedes late :=
  ⟨Nat.le_trans earlyInside.1.2.2 (Nat.le_trans precedes.1 lateInside.1.1),
    UInt64.le_trans earlyInside.2.2.2 (UInt64.le_trans precedes.2 lateInside.2.1)⟩

theorem places_unfold (address : List Nat) (node : Node) :
    places address node = ⟨address, node⟩ :: placesAll address 0 node.children := by
  cases node
  rfl

theorem places_all_mem (address : List Nat) (position : Nat) (nodes : List Node) (place : Place)
    (member : place ∈ placesAll address position nodes) :
    ∃ index child, nodes[index]? = some child ∧ place ∈ places (address ++ [position + index]) child := by
  induction nodes generalizing position with
  | nil => cases member
  | cons node rest ih =>
      rw [placesAll] at member
      rcases List.mem_append.mp member with here | later
      · exact ⟨0, node, rfl, here⟩
      · obtain ⟨index, child, found, inside⟩ := ih (position + 1) later
        refine ⟨index + 1, child, found, ?_⟩
        rwa [Nat.add_right_comm, Nat.add_assoc] at inside

theorem place_address (node : Node) (address : List Nat) (place : Place) (member : place ∈ places address node) :
    ∃ path, place.address = address ++ path ∧ nodeAt? node path = some place.node := by
  induction node using node_induction generalizing address with
  | step node ih =>
      rw [places_unfold] at member
      rcases List.mem_cons.mp member with rfl | below
      · exact ⟨[], (List.append_nil _).symm, rfl⟩
      · obtain ⟨index, child, found, inside⟩ := places_all_mem address 0 node.children place below
        obtain ⟨path, named, reached⟩ := ih child (List.mem_of_getElem? found) _ inside
        refine ⟨index :: path, ?_, ?_⟩
        · rw [named, Nat.zero_add, List.append_assoc]
          rfl
        · rw [nodeAt?, found]
          exact reached

theorem places_nodes (node : Node) (address : List Nat) : (places address node).map (·.node) = preorder node := by
  induction node using node_induction generalizing address with
  | step node ih =>
      have below : ∀ nodes : List Node, (∀ child ∈ nodes, child ∈ node.children) → ∀ position,
          (placesAll address position nodes).map (·.node) = nodes.flatMap preorder := by
        intro nodes within
        induction nodes with
        | nil => exact fun _ => rfl
        | cons child rest later =>
            intro position
            rw [placesAll, List.map_append, ih child (within child List.mem_cons_self),
              later (fun other member => within other (List.mem_cons_of_mem _ member)), List.flatMap_cons]
      rw [places_unfold, List.map_cons, below node.children (fun _ member => member) 0, ← preorder_unfold]

theorem matched_nodes (table : NodeTable) (tree : Node) : (matchedPlaces table tree).map (·.node) =
    (preorder tree).filter fun node => isFunction table node ∨ isClass table node := by
  rw [matchedPlaces, ← places_nodes tree [], List.filter_map]
  rfl

theorem well_laid_child {tree : Node} (laid : WellLaid tree) (child : Node) (member : child ∈ tree.children) : WellLaid child :=
  fun node inside => laid node (preorder_below tree child member node inside)

theorem child_inside {tree : Node} (laid : WellLaid tree) (child : Node) (member : child ∈ tree.children) :
    child.span.Inside tree.span :=
  (laid tree (preorder_self tree)).1 child member

theorem below_inside {tree : Node} (laid : WellLaid tree) (first : Nat) (path : List Nat) (inner : Node)
    (reached : nodeAt? tree (first :: path) = some inner) : inner.span.Inside tree.span := by
  induction path generalizing tree first with
  | nil =>
      obtain ⟨child, found, same⟩ := Option.bind_eq_some_iff.mp reached
      cases same
      exact child_inside laid inner (List.mem_of_getElem? found)
  | cons second path ih =>
      obtain ⟨child, found, further⟩ := Option.bind_eq_some_iff.mp reached
      have member := List.mem_of_getElem? found
      exact inside_trans _ _ _ (ih (well_laid_child laid child member) second further) (child_inside laid child member)

theorem place_inside {tree : Node} (laid : WellLaid tree) (ordered : tree.span.Inside tree.span) (address : List Nat)
    (place : Place) (member : place ∈ places address tree) : place.node.span.Inside tree.span := by
  obtain ⟨path, _, reached⟩ := place_address tree address place member
  cases path with
  | nil =>
      cases reached
      exact ordered
  | cons first path => exact below_inside laid first path place.node reached

theorem siblings_ordered (nodes : List Node) (ordered : ∀ node ∈ nodes, node.span.Inside node.span)
    (chain : nodes.IsChain fun early late => early.span.Precedes late.span) :
    nodes.Pairwise fun early late => early.span.Precedes late.span := by
  induction nodes with
  | nil => exact .nil
  | cons node rest ih =>
      cases rest with
      | nil => exact List.pairwise_singleton _ _
      | cons next others =>
          obtain ⟨first, chain⟩ := List.isChain_cons_cons.mp chain
          have later := ih (fun other member => ordered other (List.mem_cons_of_mem _ member)) chain
          refine .cons (fun other member => ?_) later
          rcases List.mem_cons.mp member with rfl | beyond
          · exact first
          · have second := (List.pairwise_cons.mp later).1 other beyond
            have between := ordered next (List.mem_cons_of_mem _ List.mem_cons_self)
            exact ⟨Nat.le_trans first.1 (Nat.le_trans between.1.2.1 second.1),
              UInt64.le_trans first.2 (UInt64.le_trans between.2.2.1 second.2)⟩

def InOrder (early late : Place) : Prop := early.node.span.startRow ≤ late.node.span.startRow ∧ Follows early late

theorem places_all_ordered (nodes : List Node) (laid : ∀ node ∈ nodes, WellLaid node)
    (ordered : ∀ node ∈ nodes, node.span.Inside node.span)
    (apart : nodes.Pairwise fun early late => early.span.Precedes late.span)
    (each : ∀ node ∈ nodes, ∀ address, (places address node).Pairwise InOrder) (address : List Nat) (position : Nat) :
    (placesAll address position nodes).Pairwise InOrder := by
  induction nodes generalizing position with
  | nil => exact .nil
  | cons node rest ih =>
      obtain ⟨before, apart⟩ := List.pairwise_cons.mp apart
      rw [placesAll, List.pairwise_append]
      refine ⟨each node List.mem_cons_self _, ?_, ?_⟩
      · exact ih (fun other member => laid other (List.mem_cons_of_mem _ member))
          (fun other member => ordered other (List.mem_cons_of_mem _ member)) apart
          (fun other member => each other (List.mem_cons_of_mem _ member)) (position + 1)
      · intro early here late there
        obtain ⟨index, child, found, inside⟩ := places_all_mem address (position + 1) rest late there
        have member := List.mem_of_getElem? found
        have earlyInside := place_inside (laid node List.mem_cons_self) (ordered node List.mem_cons_self) _ early here
        have lateInside := place_inside (laid child (List.mem_cons_of_mem _ member))
          (ordered child (List.mem_cons_of_mem _ member)) _ late inside
        have precedes := precedes_within _ _ _ _ earlyInside lateInside (before child member)
        exact ⟨UInt64.le_trans earlyInside.2.2.1 precedes.2, .inr precedes⟩

theorem places_ordered (tree : Node) (laid : WellLaid tree) (address : List Nat) :
    (places address tree).Pairwise InOrder := by
  induction tree using node_induction generalizing address with
  | step tree ih =>
      have inside := child_inside laid
      rw [places_unfold, List.pairwise_cons]
      constructor
      · intro late below
        obtain ⟨index, child, found, there⟩ := places_all_mem address 0 tree.children late below
        obtain ⟨path, named, reached⟩ := place_address child _ late there
        have within : late.node.span.Inside tree.span := by
          refine below_inside laid index path late.node ?_
          rw [nodeAt?, found]
          exact reached
        refine ⟨within.2.1, .inl ⟨?_, ?_, within⟩⟩
        · rw [named, List.append_assoc]
          exact List.prefix_append _ _
        · intro same
          have lengths := congrArg List.length (same.trans named)
          simp only [List.length_append, List.length_singleton] at lengths
          omega
      · exact places_all_ordered tree.children (well_laid_child laid) (fun child member => inside_self _ _ (inside child member))
          (siblings_ordered tree.children (fun child member => inside_self _ _ (inside child member))
            (laid tree (preorder_self tree)).2)
          (fun child member => ih child member (well_laid_child laid child member)) address 0

theorem matched_ordered (table : NodeTable) (tree : Node) (laid : WellLaid tree) : (matchedPlaces table tree).Pairwise InOrder :=
  (places_ordered tree laid []).sublist List.filter_sublist

theorem matched_at (table : NodeTable) (tree : Node) (place : Place) (member : place ∈ matchedPlaces table tree) :
    nodeAt? tree place.address = some place.node := by
  obtain ⟨path, named, reached⟩ := place_address tree [] place (List.mem_of_mem_filter member)
  rw [List.nil_append] at named
  rwa [named]

section Extracted

variable (table : NodeTable) (functions : table.functionKind ≠ "") (classes : table.classKind ≠ "") (tree : Node)
  (source : String) (nonempty : source ≠ "")

include functions classes nonempty

theorem matched_stand : List.Forall₂ (fun place element => StandsFor source.toList place.node element)
    (matchedPlaces table tree) (extract (some table) tree source) := by
  have stands := visit_stands table source.toList none tree
  rwa [← matched_nodes, List.forall₂_map_left_iff, ← extract_is_visit table tree source nonempty functions classes] at stands

theorem matched_rows : (matchedPlaces table tree).map (·.node.span.startRow) =
    (extract (some table) tree source).map (·.startLine) := by
  have rows : List.Forall₂ (fun (place : Place) (element : Element) => place.node.span.startRow = element.startLine)
      (matchedPlaces table tree) (extract (some table) tree source) :=
    (matched_stand table functions classes tree source nonempty).imp fun _ _ stands => (congrArg Element.startLine stands).symm
  rwa [← List.forall₂_map_right_iff, ← List.forall₂_map_left_iff, List.forall₂_eq_eq_eq] at rows

theorem start_rows_ordered (laid : WellLaid tree) :
    (extract (some table) tree source).Pairwise fun early late => early.startLine ≤ late.startLine := by
  have ordered : ((matchedPlaces table tree).map (·.node.span.startRow)).Pairwise (· ≤ ·) :=
    List.pairwise_map.mpr ((matched_ordered table tree laid).imp fun both => both.1)
  rw [matched_rows table functions classes tree source nonempty] at ordered
  exact List.pairwise_map.mp ordered

end Extracted

end Extraction
end CodeIndex
