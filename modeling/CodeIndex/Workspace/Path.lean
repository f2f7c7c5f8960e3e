import CodeIndex.Text.Bytes
import CodeIndex.Text.Whitespace

namespace CodeIndex.Path

def parts (path : String) : List String :=
  (Text.splitWhere (· = '/') path.toList).map String.ofList

def absolute (path : String) : Bool := path.toList.head? = some '/'

def join (left right : String) : String :=
  if absolute right then right
  else match left.toList.getLast? with
    | none => right
    | some '/' => left ++ right
    | some _ => left ++ "/" ++ right

def idle (part : String) : Bool := part = "" || part = "."

def nameFits (name : String) : Bool := Text.byteLength name.toList ≤ 255

def fits (path : String) : Bool := Text.byteLength path.toList ≤ 4095

def nameless (path : String) : Bool := path ≠ "" && (parts path).all fun p => idle p || p = ".."

def trimParts : List String → List String
  | [] => []
  | part :: rest => part :: (rest.reverse.dropWhile idle).reverse

def parent? (path : String) : Option String :=
  let trimmed := trimParts (parts path)
  if trimmed = [""] then none
  else
    let above := trimParts trimmed.dropLast
    if absolute path && above.all (· = "") then some "/" else some ("/".intercalate above)

def ancestors (path : String) : List String :=
  go (parts path).length path
where
  go : Nat → String → List String
    | 0, path => [path]
    | n + 1, path => path :: (match parent? path with
      | none => []
      | some above => go n above)

def isDot (path : String) : Bool :=
  (parts path).head? = some "." && (parts path).all idle

def stripStart? : List Char → List Char → Option (List Char)
  | [], cs => some cs
  | _ :: _, [] => none
  | m :: mark, c :: cs => if m = c then stripStart? mark cs else none

def withoutDot (path : String) : String :=
  match stripStart? ['.', '/'] path.toList with
  | none => path
  | some rest => .ofList rest

-- Both are taken as text: the directory loses one leading `./` and the path two, and a path that
-- then does not start with the directory stays whole.
def relative (directory path : String) : String :=
  let base := withoutDot directory
  let path := withoutDot (withoutDot path)
  if isDot base || !path.toList.contains '/' then path
  else match stripStart? base.toList path.toList with
    | none => path
    | some rest => .ofList ((stripStart? ['/'] rest).getD rest)

def nameExtension? (name : String) : Option String :=
  let ending := name.toList.reverse.takeWhile (· ≠ '.')
  if name = ".." || name.length ≤ ending.length + 1 then none else some (.ofList ending.reverse)

def lastName? (path : String) : Option String := (trimParts (parts path)).getLast?

def extension (path : String) : String := ((lastName? path).bind nameExtension?).getD ""

def follow (names : List String) (part : String) : Option (List String) :=
  if idle part then some names
  else if part = ".." then (if names.isEmpty then none else some names.dropLast)
  else some (names ++ [part])

def resolve? (path : String) : Option (List String) :=
  if path = "" || absolute path then none else (parts path).foldlM follow []

def key (path : String) : String :=
  .ofList (path.toList.map fun c => if c = '\\' then '/' else c)

end CodeIndex.Path
