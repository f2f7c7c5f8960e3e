import CodeIndex.Command.Run
import CodeIndex.Workspace.Json

namespace CodeIndex

structure Site where
  workspace : Workspace
  minted : Nat

structure Turn where
  entries : List Json
  environment : Option String
  words : List String

def Answer.minted : Answer → Nat
  | .indexed summary => summary.chunksAdded
  | _ => 0

namespace Turn

def ofJson (json : Json) : Turn where
  entries := ((json.get? "write").bind Json.asItems?).getD []
  environment := (json.get? "workspace_root").bind Json.asText?
  words := ((json.get? "args").bind (Json.asList? Json.asText?)).getD []

def take (readModel : Content → ModelFile) (site : Site) (turn : Turn) :
    Except Failure Answer × Site :=
  let workspace := (site.workspace.putAllJson? turn.entries).getD site.workspace
  let (result, after) := Command.run ⟨workspace, turn.environment, readModel⟩
    (fun i => .serial (site.minted + i)) turn.words
  let added := match result with
    | .ok answer => answer.minted
    | .error _ => 0
  (result, ⟨after, site.minted + added⟩)

end Turn

namespace Site

def ofJson (readModel : Content → ModelFile) (json : Json) : Site :=
  let entries := ((json.get? "files").bind Json.asItems?).getD []
  let runs := ((json.get? "runs").bind Json.asItems?).getD []
  let start : Site := ⟨(Workspace.empty.putAllJson? entries).getD Workspace.empty, 0⟩
  (runs.map Turn.ofJson).foldl (fun site turn => (turn.take readModel site).2) start

end Site
end CodeIndex
