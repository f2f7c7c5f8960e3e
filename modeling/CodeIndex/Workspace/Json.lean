import CodeIndex.Syntax.Json
import CodeIndex.Text.Digits
import CodeIndex.Workspace

namespace CodeIndex

def Source.ofJson (text : String) (tree : Option Json) : Source :=
  ⟨text, match tree.bind Node.ofJson? with
    | some node => .ok node
    | none => .error .noTree⟩

def Content.ofBytes (bytes : List UInt8) : Content :=
  match String.fromUTF8? ⟨bytes.toArray⟩ with
  | some text => .source ⟨text, .error .noTree⟩
  | none => .binary bytes

def Content.ofJson? (json : Json) : Option Content :=
  match (json.get? "text").bind Json.asText? with
  | some text => some (.source (.ofJson text (json.get? "tree")))
  | none => do
    let digits ← (← json.get? "hex").asText?
    return .ofBytes (← Text.readBytes digits.toList)

namespace Workspace

def putJson? (workspace : Workspace) (json : Json) : Option Workspace := do
  let names ← Path.resolve? (← (← json.get? "path").asText?)
  match json.get? "dir" with
  | some (.bool true) => return workspace.putDir names
  | _ => return workspace.write names (← Content.ofJson? json)

def putAllJson? (workspace : Workspace) (entries : List Json) : Option Workspace :=
  entries.foldlM putJson? workspace

end Workspace
end CodeIndex
