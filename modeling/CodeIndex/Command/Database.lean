import CodeIndex.Command
import CodeIndex.Store.Width

namespace CodeIndex

inductive Home where
  | passing
  | file (names : List String)
deriving DecidableEq, Repr

namespace Database

-- A `%` and two hexadecimal digits stand for a byte, and a zero byte ends the text.
def unescape : List UInt8 → List UInt8
  | [] => []
  | b :: high :: low :: rest =>
    match b, Text.hexValue? (.ofUInt8 high), Text.hexValue? (.ofUInt8 low) with
    | 37, some 0, some 0 => []
    | 37, some h, some l => .ofNat (16 * h + l) :: unescape rest
    | _, _, _ => b :: unescape (high :: low :: rest)
  | b :: rest => b :: unescape rest

def unescapeText (cs : List Char) : String :=
  (String.fromUTF8? ⟨(unescape (String.ofList cs).toUTF8.toList).toArray⟩).getD ""

def nameOf (path : String) : String × Bool :=
  match Path.stripStart? "file:".toList path.toList with
  | none => (path, false)
  | some rest =>
    let body := rest.takeWhile (· ≠ '#')
    let parameters := Text.splitWhere (· = '&') ((body.dropWhile (· ≠ '?')).drop 1)
    (unescapeText (body.takeWhile (· ≠ '?')),
      parameters.any fun parameter => unescapeText parameter = "mode=memory")

-- Two dots take the last name back, whatever it is, but no way leads on from a file.
def step? (root : Entry) (names : List String) (part : String) : Option (List String) :=
  if Path.idle part || part = ".." then Path.follow names part
  else match root.find? names with
    | some (.file _) => none
    | _ => if Path.nameFits part then some (names ++ [part]) else none

def journalFits (name : String) : Bool := Path.nameFits (name ++ "-journal")

def names? (root : Entry) (name : String) : Option (List String) := do
  guard (!Path.absolute name)
  let names ← (Path.parts name).foldlM (step? root) []
  guard (Text.byteLength ("/".intercalate names).toList < 504)
  match root.find? names.dropLast with
  | some (.dir _) => return names
  | _ => none

def home (root : Entry) (path : String) : Except OpenError Home :=
  if path.toList.contains '\x00' then
    .error (.zeroByte (Text.byteLength (path.toList.takeWhile (· ≠ '\x00'))))
  else
    let (name, passing) := nameOf path
    if passing || name = "" || name = ":memory:" then .ok .passing
    else match names? root name with
      | none => .error (.notFile path)
      | some names => .ok (.file names)

end Database

namespace Workspace

-- A missing file holds empty tables, and so does one of at most one byte.
def tables (workspace : Workspace) (path : String) : Home → Except OpenError Tables
  | .passing => .ok {}
  | .file names => match workspace.find? names with
    | none => .ok {}
    | some (.dir _) => .error (.notFile path)
    | some (.file (.database tables)) => .ok tables
    | some (.file content) => if content.isBlank then .ok {} else .error .notDatabase

def keep (workspace : Workspace) (home : Home) (tables : Tables) : Workspace :=
  match home with
  | .passing => workspace
  | .file names => workspace.write names (.database tables)

def makeParents (workspace : Workspace) (path : String) : Option Failure × Workspace :=
  match Path.parent? path with
  | none => (none, workspace)
  | some parent =>
    if (Path.resolve? parent).isNone then (none, workspace)
    else
      let (error, after) := workspace.makeDirs (Path.ancestors parent)
      (error.map (.directory parent), after)

def journalFits : Home → Bool
  | .passing => true
  | .file names => names.getLast?.all Database.journalFits

-- The file is there afterwards even if its vectors cannot be given the width.
def openDatabase (workspace : Workspace) (path : String) (width : Nat) :
    Except Failure (Home × Store) × Workspace :=
  match workspace.makeParents path with
  | (some failure, above) => (.error failure, above)
  | (none, above) =>
    let found := do
      let home ← Database.home above path
      return (home, ← above.tables path home)
    match found with
    | .error error => (.error (.database path error), above)
    | .ok (home, tables) =>
      if !journalFits home then
        (.error (.database path .noJournal), above.keep home tables)
      else match Store.ofTables tables width with
        | .error error =>
          (.error (.database path (.store error)), above.keep home tables)
        | .ok store => (.ok (home, store), above.keep home store.toTables)

end Workspace
end CodeIndex
