import CodeIndex.Workspace.Ignore

namespace CodeIndex

structure FoundFile where
  path : String
  content : Content

namespace Walk

def files (root : Entry) (deep : Bool) (levels : List Ignore.Level) (path : String) :
    List (String × Entry) → List FoundFile
  | [] => []
  | (name, .file content) :: rest =>
    let inner := Path.join path name
    (if Ignore.hides levels inner name false then [] else [⟨inner, content⟩]) ++
      files root deep levels path rest
  | (name, .dir items) :: rest =>
    let inner := Path.join path name
    (if !deep || Ignore.hides levels inner name true then []
     else files root deep
      (.ofEntry root (.dir items) (.within inner) :: levels.map (Ignore.Level.deepen name))
      inner items) ++
      files root deep levels path rest

def levelsAbove (root entry : Entry) (levels : List Ignore.Level) :
    List String → List Ignore.Level
  | [] => levels
  | name :: names =>
    let here := Ignore.Level.ofEntry root entry (.above (name :: names))
    match entry.items.lookup name with
    | none => here :: levels
    | some below => levelsAbove root below (here :: levels) names

end Walk

-- A file at the path itself is found whatever the rules.
def Workspace.walk (workspace : Workspace) (path : String) (deep : Bool) : List FoundFile :=
  match workspace.locate path with
  | .error _ => []
  | .ok names =>
    match workspace.find? names with
    | none => []
    | some (.file content) => [⟨path, content⟩]
    | some (.dir items) =>
      let here := Ignore.Level.ofEntry workspace (.dir items) (.within path)
      Walk.files workspace deep (here :: Walk.levelsAbove workspace workspace [] names) path items

end CodeIndex
