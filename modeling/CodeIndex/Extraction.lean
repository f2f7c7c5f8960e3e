import CodeIndex.Element
import CodeIndex.Extraction.Docs
import CodeIndex.Language

namespace CodeIndex.Extraction

def unknownFunction : String := "unknown_function"

def unknownClass : String := "unknown_class"

-- A node that waits to be visited, with its ancestors, nearest first.
structure Frame where
  node : Node
  ancestors : List Node

def nearest? (kind : String) (ancestors : List Node) : Option Node :=
  ancestors.find? fun node => node.named && node.kind == kind

def nameOf (source : List Char) (node : Node) (field fallback : String) : String :=
  ((fieldText? source node field).map String.ofList).getD fallback

def describe (source : List Char) (node : Node) (kind : ElementKind) (name : String)
    (parentClass : Option String) : Element where
  kind := kind
  name := name
  sourceText := .ofList (nodeText source node)
  docstring := (docstring? source node).map .ofList
  comments := (comments source node).map .ofList
  parentClass := parentClass
  startLine := node.span.startRow
  endLine := node.span.endRow

def matchKind (node : Node) : String := if node.named then node.kind else ""

def element? (table : NodeTable) (source : List Char) (frame : Frame) : Option Element :=
  let kind := matchKind frame.node
  if kind = table.functionKind then
    let parent := (nearest? table.classKind frame.ancestors).map fun node =>
      nameOf source node table.classNameField unknownClass
    some (describe source frame.node (if parent.isSome then .method else .function)
      (nameOf source frame.node table.nameField unknownFunction) parent)
  else if kind = table.classKind then
    some (describe source frame.node .class
      (nameOf source frame.node table.classNameField unknownClass) none)
  else none

def Frame.below (frame : Frame) : List Frame :=
  frame.node.children.map fun child => ⟨child, frame.node :: frame.ancestors⟩

def pendingSize (frames : List Frame) : Nat := Node.sizes (frames.map (·.node))

theorem sizes_append (a b : List Node) : Node.sizes (a ++ b) = Node.sizes a + Node.sizes b := by
  induction a with
  | nil => simp [Node.sizes]
  | cons node rest ih => simp [Node.sizes, ih, Nat.add_assoc]

theorem size_eq (node : Node) : node.size = 1 + Node.sizes node.children := by
  cases node
  rfl

theorem pendingSize_below (frame : Frame) (rest : List Frame) :
    pendingSize (frame.below ++ rest) < pendingSize (frame :: rest) := by
  have nodes : frame.below.map (·.node) = frame.node.children := by
    simp [Frame.below, Function.comp_def]
  simp only [pendingSize, List.map_append, List.map_cons, nodes, sizes_append, Node.sizes,
    size_eq frame.node]
  omega

-- The children of the first pending node go before the others, so elements come in document order.
def drain (table : NodeTable) (source : List Char) : List Frame → List Element
  | [] => []
  | frame :: rest =>
    (element? table source frame).toList ++ drain table source (frame.below ++ rest)
termination_by frames => pendingSize frames
decreasing_by exact pendingSize_below frame rest

def extract (table : Option NodeTable) (tree : Node) (source : String) : List Element :=
  match table with
  | none => []
  | some table => if source = "" then [] else drain table source.toList [⟨tree, []⟩]

end CodeIndex.Extraction
