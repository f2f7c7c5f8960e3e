import CodeIndex.Store
import CodeIndex.Store.Declaration

namespace CodeIndex

namespace Width

def creation (width : Nat) : String :=
  "CREATE VIRTUAL TABLE IF NOT EXISTS vec_embeddings USING vec0(embedding FLOAT[" ++
    Text.decimalText width ++ "]);"

def declaration (width : Nat) : String :=
  "CREATE VIRTUAL TABLE vec_embeddings USING vec0(embedding FLOAT[" ++
    Text.decimalText width ++ "])"

def after? (mark : List Char) : List Char → Option (List Char)
  | [] => if mark.isEmpty then some [] else none
  | c :: cs =>
    if mark.isPrefixOf (c :: cs) then some ((c :: cs).drop mark.length) else after? mark cs

def before? (c : Char) (cs : List Char) : Option (List Char) :=
  if cs.contains c then some (cs.takeWhile (· ≠ c)) else none

def parse? (declaration : String) : Option Nat := do
  let rest ← after? "float[".toList (Text.lowerAscii declaration.toList)
  let inside ← before? ']' rest
  Text.readWord (Text.trim inside)

def check (width : Nat) : Except StoreError Unit :=
  if width = 0 ∨ 2147483648 ≤ width then .error (.unreadableWidth width)
  else if 8192 < width then .error (.excessiveWidth width)
  else .ok ()

-- A table whose name differs in letter case stands in its place and states no width.
def ofStatement? (statement : String) : Option String :=
  match Declaration.ofStatement? statement with
  | none => none
  | some (name, text) =>
    if name = "vec_embeddings" then some text
    else if Text.lowerAscii name.toList = "vec_embeddings".toList then some ""
    else none

end Width

namespace Store

def ofTables (tables : Tables) (requested : Nat) : Except StoreError Store :=
  match tables.declaration with
  | some declaration => .ok ⟨tables, (Width.parse? declaration).getD requested⟩
  | none => do
    Width.check requested
    return ⟨{ tables with declaration := some (Width.declaration requested) }, requested⟩

def rebuild (store : Store) (width : Nat) : Except StoreError Store := do
  Width.check width
  return { store with
    chunks := []
    embeddings := []
    vectors := []
    declaration := some (Width.declaration width)
    dimensions := width }

def clear (store : Store) : Store :=
  { store with files := [], chunks := [], embeddings := [], vectors := [], feedback := [] }

end Store
end CodeIndex
