import CodeIndex.Config.Json
import CodeIndex.Workspace

namespace CodeIndex

inductive ReadFault where
  | isDirectory
  | notText
deriving DecidableEq, Repr

def ReadFault.message : ReadFault → String
  | .isDirectory => "Is a directory (os error 21)"
  | .notText => "stream did not contain valid UTF-8"

def Entry.readText (root : Entry) (path : String) : Except ReadFault (Option String) :=
  match root.at? path with
  | none => .ok none
  | some (.dir _) => .error .isDirectory
  | some (.file content) =>
    match content.text? with
    | none => .error .notText
    | some text => .ok (some text)

namespace Config

def readMessage (path : String) : String := "failed to read config: " ++ path

def writeMessage (path : String) : String := "failed to write config: " ++ path

def load (workspace : Workspace) (path : String) : Except ReadFault Config := do
  return match ← workspace.readText path with
    | none => {}
    | some text => ofText text

def save? (config : Config) (workspace : Workspace) (path : String) : Option Workspace :=
  workspace.save? path config.toText

end Config
end CodeIndex
