import CodeIndex.Command.History
import CodeIndex.Json.Real

open CodeIndex

def noRuntime (_ : Content) : ModelFile := .unreadable

def main (arguments : List String) : IO UInt32 := do
  let document := (Json.read? (← (← IO.getStdin).readToEnd)).getD .null
  let turn : Turn :=
    ⟨[], (document.get? "workspace_root").bind Json.asText?, arguments⟩
  match (turn.take noRuntime (.ofJson noRuntime document)).1 with
  | .ok answer =>
    IO.println (answer.toJson ((document.get? "time").getD .null) Json.float).prettyText
    return 0
  | .error failure =>
    IO.eprintln failure.text
    return failure.exitCode.toUInt32
