import CodeIndex.Workspace
import CodeIndex.Workspace.Glob.Reader

namespace CodeIndex.Ignore

structure Rule where
  shows : Bool
  onlyDirs : Bool
  glob : Glob
deriving DecidableEq, Repr

def leading (mark : Char) : List Char → Bool × List Char
  | [] => (false, [])
  | c :: cs => if c = mark then (true, cs) else (false, c :: cs)

def trailingSlash (cs : List Char) : Bool × List Char :=
  if cs.getLast? ≠ some '/' then (false, cs)
  else if cs.dropLast.getLast? = some '\\' then (true, cs.dropLast.dropLast)
  else (true, cs.dropLast)

-- A pattern that is not anchored and has no slash applies at every depth.
def patternText (anchored : Bool) (text : List Char) : List Char :=
  let deep := ['*', '*', '/'].isPrefixOf text || text = ['*', '*']
  let text := if anchored || text.contains '/' || deep then text else ['*', '*', '/'] ++ text
  if ['/', '*', '*'].isSuffixOf text then text ++ ['/', '*'] else text

def rule? (line : List Char) : Option Rule :=
  let line := if ['\\', ' '].isSuffixOf line then line else Text.trimEnd line
  if line.isEmpty || line.head? = some '#' then none
  else
    let escaped := ['\\', '!'].isPrefixOf line || ['\\', '#'].isPrefixOf line
    let (shows, line) := if escaped then (false, line.drop 1) else leading '!' line
    let (anchored, line) := if escaped then (false, line) else leading '/' line
    let (onlyDirs, line) := trailingSlash line
    (Glob.ofText? (patternText anchored line)).map (⟨shows, onlyDirs, ·⟩)

def withoutMarks : List (List Char) → List (List Char)
  | [] => []
  | first :: rest => first.dropWhile (· = '\ufeff') :: rest

def rules (content : Content) : List Rule := (withoutMarks content.lines).filterMap rule?

inductive Verdict where
  | hidden | shown
deriving DecidableEq, Repr

def verdict? (rules : List Rule) (path : String) (isDir : Bool) : Option Verdict :=
  (rules.reverse.find? fun rule =>
    (isDir || !rule.onlyDirs) && rule.glob.matchesPath path).map fun rule =>
      if rule.shows then .shown else .hidden

-- A directory above the one where a walk starts is known by the names that lead from it to the
-- directory at hand, and one of the walk by its path.
inductive Place where
  | above (names : List String)
  | within (path : String)
deriving DecidableEq, Repr

def Place.see (place : Place) (path name : String) : String :=
  match place with
  | .above names => "/".intercalate (names ++ [name])
  | .within directory => Path.relative directory path

structure Level where
  plain : List Rule
  versioned : List Rule
  excluded : List Rule
  repository : Bool
  place : Place

def rulesAt (entry : Entry) (names : List String) : List Rule :=
  match entry.find? names with
  | some (.file content) => rules content
  | _ => []

def firstLine? (mark : String) (content : Content) : Option String := do
  let line ← content.lines.head?
  return .ofList (← Path.stripStart? mark.toList line)

def sharedDir? (root : Entry) (content : Content) : Option String := do
  let own ← firstLine? "gitdir: " content
  match root.at? (Path.join own "commondir") with
  | some (.file common) =>
    let line ← firstLine? "" common
    return if line.toList.head? = some '.' then Path.join own line else line
  | _ => none

def excludedOf (root : Entry) (entry : Entry) : List Rule :=
  match entry.find? [".git"] with
  | some (.file content) =>
    match (sharedDir? root content).bind fun dir => root.at? (Path.join dir "info/exclude") with
    | some (.file content) => rules content
    | _ => []
  | _ => rulesAt entry [".git", "info", "exclude"]

def Level.ofEntry (root : Entry) (entry : Entry) (place : Place) : Level where
  plain := rulesAt entry [".ignore"]
  versioned := rulesAt entry [".gitignore"]
  excluded := excludedOf root entry
  repository := (entry.find? [".git"]).isSome
  place := place

def Level.deepen (name : String) (level : Level) : Level :=
  match level.place with
  | .above names => { level with place := .above (names ++ [name]) }
  | .within _ => level

def withinRepository : List Level → List Level
  | [] => []
  | level :: above =>
    if level.repository then [level]
    else match withinRepository above with
      | [] => []
      | rest => level :: rest

-- Plain rules come before those under version control, these before those of the repository
-- itself, and near ones before far ones.
def hides (levels : List Level) (path name : String) (isDir : Bool) : Bool :=
  let first (levels : List Level) (rulesOf : Level → List Rule) : Option Verdict :=
    levels.findSome? fun level => verdict? (rulesOf level) (level.place.see path name) isDir
  let inside := withinRepository levels
  match ((first levels Level.plain).or (first inside Level.versioned)).or
      (first inside Level.excluded) with
  | some .hidden => true
  | some .shown => false
  | none => name.toList.head? = some '.'

end CodeIndex.Ignore
