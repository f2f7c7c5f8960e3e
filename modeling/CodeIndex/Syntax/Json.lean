import CodeIndex.Json.Decode
import CodeIndex.Syntax

namespace CodeIndex

structure FlatNode where
  parent : Int
  position : Nat
  node : Node

structure FlatField where
  node : Nat
  name : String
  child : Nat

namespace FlatNode

def fieldsOf (fields : List FlatField) (position : Nat) (children : List FlatNode) :
    List (String × Nat) :=
  (fields.filter (·.node == position)).filterMap fun field =>
    (children.findIdx? (·.position == field.child)).map (field.name, ·)

-- Nodes come last one first, so those that are pending and name this one as parent are its
-- children.
def adopt (fields : List FlatField) (flat : FlatNode) (pending : List FlatNode) : List FlatNode :=
  let children := pending.takeWhile (·.parent == (flat.position : Int))
  let others := pending.dropWhile (·.parent == (flat.position : Int))
  let node : Node := .mk flat.node.kind flat.node.named flat.node.span
    (fieldsOf fields flat.position children) (children.map (·.node))
  { flat with node := node } :: others

def ofJson? (position : Nat) : Json → Option FlatNode
  | .arr [.num parent, .str (some kind), .num named, .num startByte, .num endByte, .num startRow,
      .num endRow] => do
    let span : Span :=
      ⟨← startByte.nat?, ← endByte.nat?, .ofNat (← startRow.nat?), .ofNat (← endRow.nat?)⟩
    return ⟨← parent.int?, position, .mk kind ((← named.nat?) ≠ 0) span [] []⟩
  | _ => none

end FlatNode

def FlatField.ofJson? : Json → Option FlatField
  | .arr [.num node, .str (some name), .num child] => do return ⟨← node.nat?, name, ← child.nat?⟩
  | _ => none

def Node.ofJson? (json : Json) : Option Node := do
  let items ← (← json.get? "nodes").asItems?
  let nodes ← items.zipIdx.mapM fun (item, position) => FlatNode.ofJson? position item
  let fields ← (← (← json.get? "fields").asItems?).mapM FlatField.ofJson?
  return (← (nodes.foldr (FlatNode.adopt fields) []).head?).node

end CodeIndex
