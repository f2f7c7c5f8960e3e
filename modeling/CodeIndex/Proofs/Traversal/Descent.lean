import Mathlib.Logic.Relation
import CodeIndex.Proofs.Traversal

set_option autoImplicit false

namespace CodeIndex.Extraction

theorem size_child (node child : Node) (member : child ∈ node.children) : child.size < node.size := by
  have within : ∀ nodes : List Node, child ∈ nodes → child.size ≤ Node.sizes nodes := by
    intro nodes inside
    induction nodes with
    | nil => cases inside
    | cons first rest ih =>
        rw [Node.sizes]
        rcases List.mem_cons.mp inside with rfl | later
        · omega
        · have bound := ih later
          omega
  have bound := within node.children member
  rw [size_eq node]
  omega

theorem node_induction {holds : Node → Prop} (step : ∀ node, (∀ child ∈ node.children, holds child) → holds node)
    (node : Node) : holds node := by
  apply step
  intro child member
  have smaller := size_child node child member
  exact node_induction step child
termination_by node.size

theorem preorder_all_children (nodes : List Node) : preorderAll nodes = nodes.flatMap preorder := by
  induction nodes with
  | nil => rfl
  | cons node rest ih => rw [preorderAll, ih, List.flatMap_cons]

theorem preorder_unfold (node : Node) : preorder node = node :: node.children.flatMap preorder := by
  rw [← preorder_all_children]
  cases node
  rfl

theorem preorder_iff (node other : Node) :
    other ∈ preorder node ↔ other = node ∨ ∃ child ∈ node.children, other ∈ preorder child := by
  rw [preorder_unfold, List.mem_cons, List.mem_flatMap]

theorem preorder_self (node : Node) : node ∈ preorder node := (preorder_iff node node).mpr (.inl rfl)

theorem preorder_below (node child : Node) (member : child ∈ node.children) (other : Node) (inside : other ∈ preorder child) :
    other ∈ preorder node :=
  (preorder_iff node other).mpr (.inr ⟨child, member, inside⟩)

theorem preorder_child (node child : Node) (member : child ∈ node.children) : child ∈ preorder node :=
  preorder_below node child member child (preorder_self child)

theorem preorder_trans (outer middle inner : Node) (here : middle ∈ preorder outer) (there : inner ∈ preorder middle) :
    inner ∈ preorder outer := by
  induction outer using node_induction with
  | step outer ih =>
      rcases (preorder_iff outer middle).mp here with rfl | ⟨child, member, inside⟩
      · exact there
      · exact preorder_below outer child member inner (ih child member inside)

theorem element_told (table : NodeTable) (source : List Char) (frame : Frame) (element : Element)
    (found : element? table source frame = some element) :
    element = describe source frame.node
      (if (enclosingClass table source frame.ancestors).isSome then .method else .function)
      (nameOf source frame.node table.nameField unknownFunction) (enclosingClass table source frame.ancestors) ∨
    element = describe source frame.node .class (nameOf source frame.node table.classNameField unknownClass) none := by
  rw [element?] at found
  by_cases function : matchKind frame.node = table.functionKind
  · rw [if_pos function] at found
    cases found
    exact .inl rfl
  · rw [if_neg function] at found
    by_cases here : matchKind frame.node = table.classKind
    · rw [if_pos here] at found
      cases found
      exact .inr rfl
    · rw [if_neg here] at found
      cases found

theorem element_cases (table : NodeTable) (source : List Char) (frame : Frame) (element : Element)
    (found : element? table source frame = some element) :
    (∃ name, element = describe source frame.node .class name none) ∨
    (∃ name, element = describe source frame.node .function name none) ∨
    ∃ name parent, element = describe source frame.node .method name (some parent) := by
  rcases element_told table source frame element found with rfl | rfl
  · cases enclosingClass table source frame.ancestors with
    | none => exact .inr (.inl ⟨_, rfl⟩)
    | some parent => exact .inr (.inr ⟨_, _, rfl⟩)
  · exact .inl ⟨_, rfl⟩

-- A bare token is matched too where the table leaves a kind empty.
def Matched (table : NodeTable) (node : Node) : Prop :=
  matchKind node = table.functionKind ∨ matchKind node = table.classKind

instance (table : NodeTable) (node : Node) : Decidable (Matched table node) := inferInstanceAs (Decidable (_ ∨ _))

theorem element_none_iff (table : NodeTable) (source : List Char) (frame : Frame) :
    element? table source frame = none ↔ ¬ Matched table frame.node := by
  rw [element?, Matched, not_or]
  by_cases function : matchKind frame.node = table.functionKind
  · simp [function]
  · rw [if_neg function]
    by_cases here : matchKind frame.node = table.classKind
    · simp [here]
    · simp [function, here]

theorem drain_forall (table : NodeTable) (source : List Char) (holds : Element → Prop)
    (each : ∀ frame element, element? table source frame = some element → holds element) (frames : List Frame) :
    ∀ element ∈ drain table source frames, holds element := by
  induction frames using drain.induct with
  | case1 =>
      intro element member
      rw [drain] at member
      cases member
  | case2 frame rest ih =>
      intro element member
      rw [drain, List.mem_append, Option.mem_toList] at member
      rcases member with here | later
      · exact each frame element here
      · exact ih element later

theorem extract_forall (table : Option NodeTable) (tree : Node) (source : String) (holds : Element → Prop)
    (each : ∀ own frame element, element? own source.toList frame = some element → holds element) :
    ∀ element ∈ extract table tree source, holds element := by
  intro element member
  cases table with
  | none => cases member
  | some own =>
      rw [extract] at member
      split at member
      · cases member
      · exact drain_forall own source.toList holds (each own) _ element member

def Frame.Leads : Frame → Frame → Prop := Relation.ReflTransGen fun frame child => child ∈ frame.below

theorem below_iff (frame child : Frame) :
    child ∈ frame.below ↔ child.node ∈ frame.node.children ∧ child.ancestors = frame.node :: frame.ancestors := by
  rw [Frame.below, List.mem_map]
  constructor
  · rintro ⟨node, member, rfl⟩
    exact ⟨member, rfl⟩
  · rintro ⟨member, same⟩
    exact ⟨child.node, member, by rw [← same]⟩

theorem leads_preorder (frame late : Frame) (leads : frame.Leads late) : late.node ∈ preorder frame.node := by
  induction leads with
  | refl => exact preorder_self frame.node
  | @tail middle late _ step ih =>
      exact preorder_trans _ _ _ ih (preorder_child _ _ ((below_iff middle late).mp step).1)

-- Each ancestor was pending itself, with the ancestors that are listed after it.
theorem leads_ancestor (tree : Node) (late : Frame) (leads : Frame.Leads ⟨tree, []⟩ late) (above : Node) (rest : List Node)
    (listed : above :: rest <:+ late.ancestors) : Frame.Leads ⟨tree, []⟩ ⟨above, rest⟩ ∧ Frame.Leads ⟨above, rest⟩ late := by
  induction leads with
  | refl => cases List.suffix_nil.mp listed
  | @tail middle late begun step ih =>
      have ancestors := ((below_iff middle late).mp step).2
      rw [ancestors, List.suffix_cons_iff] at listed
      rcases listed with here | further
      · cases here
        exact ⟨begun, .single step⟩
      · obtain ⟨before, after⟩ := ih further
        exact ⟨before, after.tail step⟩

theorem drain_lists (table : NodeTable) (source : List Char) (frames : List Frame) (frame late : Frame) (member : frame ∈ frames)
    (leads : frame.Leads late) (element : Element) (found : element? table source late = some element) :
    element ∈ drain table source frames := by
  induction frames using drain.induct generalizing frame with
  | case1 => cases member
  | case2 first rest ih =>
      rw [drain, List.mem_append, Option.mem_toList]
      rcases List.mem_cons.mp member with rfl | later
      · rcases Relation.ReflTransGen.cases_head_iff.mp leads with rfl | ⟨child, below, further⟩
        · exact .inl found
        · exact .inr (ih child (List.mem_append_left _ below) further)
      · exact .inr (ih frame (List.mem_append_right _ later) leads)

theorem element_matched (table : NodeTable) (source : List Char) (frame : Frame) (holds : Node → Element → Prop)
    (each : ∀ element, element? table source frame = some element → holds frame.node element) :
    List.Forall₂ holds ([frame.node].filter fun node => Matched table node) (element? table source frame).toList := by
  have none := element_none_iff table source frame
  cases found : element? table source frame with
  | none => simp [none.mp found]
  | some element =>
      have matched : Matched table frame.node := not_not.mp (mt none.mpr (by simp [found]))
      simpa [matched] using each element found

theorem drain_follows (table : NodeTable) (source : List Char) (root : Frame) (holds : Node → Element → Prop)
    (each : ∀ frame element, root.Leads frame → element? table source frame = some element → holds frame.node element)
    (frames : List Frame) (reached : ∀ frame ∈ frames, root.Leads frame) :
    List.Forall₂ holds ((frames.flatMap fun frame => preorder frame.node).filter fun node => Matched table node)
      (drain table source frames) := by
  induction frames using drain.induct with
  | case1 =>
      rw [drain]
      exact .nil
  | case2 frame rest ih =>
      have nodes : (frame :: rest).flatMap (fun frame => preorder frame.node) =
          [frame.node] ++ (frame.below ++ rest).flatMap fun frame => preorder frame.node := by
        rw [List.flatMap_cons, preorder_unfold, List.flatMap_append, Frame.below, List.flatMap_map]
        rfl
      have here := reached frame List.mem_cons_self
      rw [nodes, List.filter_append, drain]
      refine List.rel_append (element_matched table source frame holds fun element => each frame element here) (ih ?_)
      intro other member
      rcases List.mem_append.mp member with below | later
      · exact here.tail below
      · exact reached other (List.mem_cons_of_mem _ later)

end CodeIndex.Extraction
