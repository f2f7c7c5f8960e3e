import CodeIndex.Store
import CodeIndex.Syntax
import CodeIndex.Workspace.Path

namespace CodeIndex

inductive Content where
  | source (value : Source)
  | database (tables : Tables)
  | binary (bytes : List UInt8)

namespace Content

def text? : Content → Option String
  | source value => some value.text
  | database _ => none
  | binary _ => none

def readableLines (bytes : List UInt8) : List (List Char) :=
  ((bytes.splitOn 10).map fun line => String.fromUTF8? ⟨line.toArray⟩)
    |>.takeWhile Option.isSome |>.filterMap (Option.map String.toList)

def lines : Content → List (List Char)
  | source value => ended (Text.lines value.text.toList)
  | database _ => []
  | binary bytes => ended (readableLines bytes)
where
  ended (lines : List (List Char)) : List (List Char) :=
    lines.map fun line => if line.getLast? = some '\r' then line.dropLast else line

def isBlank : Content → Bool
  | source value => Text.byteLength value.text.toList ≤ 1
  | database _ => false
  | binary bytes => bytes.length ≤ 1

end Content

inductive Entry where
  | file (content : Content)
  | dir (items : List (String × Entry))

inductive PathError where
  | absent
  | taken
  | notDirectory
  | tooLong
  | zeroByte
deriving DecidableEq, Repr

def PathError.message : PathError → String
  | .absent => "No such file or directory (os error 2)"
  | .taken => "File exists (os error 17)"
  | .notDirectory => "Not a directory (os error 20)"
  | .tooLong => "File name too long (os error 36)"
  | .zeroByte => "file name contained an unexpected NUL byte"

def Path.check (path : String) : Except PathError Unit :=
  if path.toList.contains '\x00' then .error .zeroByte
  else if path = "" then .error .absent
  else if Path.fits path then .ok () else .error .tooLong

namespace Entry

def items : Entry → List (String × Entry)
  | file _ => []
  | dir items => items

def isDir : Entry → Bool
  | file _ => false
  | dir _ => true

def insert (name : String) (entry : Entry) : List (String × Entry) → List (String × Entry)
  | [] => [(name, entry)]
  | (other, old) :: rest =>
    if name = other then (name, entry) :: rest
    else if name < other then (name, entry) :: (other, old) :: rest
    else (other, old) :: insert name entry rest

def find? (entry : Entry) : List String → Option Entry
  | [] => some entry
  | name :: names => (entry.items.lookup name).bind (find? · names)

def alter (change : Option Entry → Entry) (entry : Option Entry) : List String → Entry
  | [] => change entry
  | name :: names =>
    let items := (entry.map Entry.items).getD []
    .dir (insert name (alter change (items.lookup name) names) items)

def write (root : Entry) (names : List String) (content : Content) : Entry :=
  alter (fun _ => .file content) (some root) names

def putDir (root : Entry) (names : List String) : Entry :=
  alter (fun
    | some (.dir items) => .dir items
    | _ => .dir []) (some root) names

def remove (entry : Entry) : List String → Entry
  | [] => .dir []
  | [name] => .dir (entry.items.filter (·.1 != name))
  | name :: names =>
    match entry.items.lookup name with
    | none => entry
    | some below => .dir (insert name (remove below names) entry.items)

-- Steps go from directories only, and none goes back from the top.
def step (root : Entry) (names : List String) (part : String) :
    Except PathError (List String) :=
  match root.find? names with
  | some (.dir items) =>
    if Path.idle part then .ok names
    else if part = ".." then (if names.isEmpty then .error .absent else .ok names.dropLast)
    else if !Path.nameFits part then .error .tooLong
    else if (items.lookup part).isSome then .ok (names ++ [part]) else .error .absent
  | _ => .error .notDirectory

def locate (root : Entry) (path : String) : Except PathError (List String) := do
  Path.check path
  if Path.absolute path then throw .absent
  (Path.parts path).foldlM root.step []

-- A path of dots and slashes that leaves the tree still leads to a directory, of which nothing is
-- known.
def at? (root : Entry) (path : String) : Option Entry :=
  match Path.check path, root.locate path with
  | .error _, _ => none
  | .ok (), .ok names => root.find? names
  | .ok (), .error _ => if Path.nameless path then some (.dir []) else none

def isDirAt (root : Entry) (path : String) : Bool :=
  match root.at? path with
  | some entry => entry.isDir
  | none => false

def place (root : Entry) (path : String) (parts : List String) :
    Except PathError (List String × String) := do
  Path.check path
  let names ← parts.dropLast.foldlM root.step []
  match root.find? names with
  | some (.dir _) => return (names, parts.getLastD "")
  | _ => throw .notDirectory

def makeDir (root : Entry) (path : String) : Except PathError Entry := do
  let parts := ((Path.parts path).reverse.dropWhile (· = "")).reverse
  let (names, last) ← root.place path parts
  if last = "." || last = ".." then throw .taken
  else if !Path.nameFits last then throw .tooLong
  else match root.find? (names ++ [last]) with
    | some _ => throw .taken
    | none => return root.putDir (names ++ [last])

def settle (root : Entry) (path : String) :
    Except PathError Entry → Option PathError × Entry
  | .ok after => (none, after)
  | .error error => if root.isDirAt path then (none, root) else (some error, root)

-- What was made stays when the rest fails.
def makeDirs (root : Entry) : List String → Option PathError × Entry
  | [] => (none, root)
  | path :: above =>
    if path = "" then (none, root)
    else match root.makeDir path with
      | .error .absent =>
        match makeDirs root above with
        | (some error, after) => (some error, after)
        | (none, after) => after.settle path (after.makeDir path)
      | made => root.settle path made

def save? (root : Entry) (path text : String) : Option Entry := do
  guard (!Path.absolute path && !root.isDirAt path)
  let (names, last) ← (root.place path (Path.parts path)).toOption
  guard (Path.nameFits last && ["", ".", ".."].all (· ≠ last))
  return root.write (names ++ [last]) (.source ⟨text, .error .noTree⟩)

end Entry

abbrev Workspace := Entry

def Workspace.empty : Workspace := .dir []

end CodeIndex
