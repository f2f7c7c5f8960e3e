import CodeIndex.Element
import CodeIndex.Text.Bytes
import CodeIndex.Text.Digits
import CodeIndex.Text.Whitespace

namespace CodeIndex.ModulePieces

structure Piece where
  start : Nat
  lines : List (List Char)
deriving DecidableEq, Repr

def lineCost (line : List Char) : Nat := Text.byteLength line + 1

-- The open run is `current` in reverse; it starts at line `start` and costs `spent`.
def fill (budget start spent : Nat) (current : List (List Char)) : List (List Char) → List Piece
  | [] => if current.isEmpty then [] else [⟨start, current.reverse⟩]
  | line :: rest =>
    if budget < spent + lineCost line ∧ current ≠ [] then
      ⟨start, current.reverse⟩ ::
        fill budget (start + current.length) (lineCost line) [line] rest
    else fill budget start (spent + lineCost line) (line :: current) rest

def pieces (budget : Nat) (source : List Char) : List Piece :=
  fill budget 0 0 [] (Text.lines source)

def Piece.text (piece : Piece) : List Char := Text.join ['\n'] piece.lines

def Piece.blank (piece : Piece) : Bool := piece.text.all Text.isBlank

def Piece.toElement (piece : Piece) (position : Nat) : Element where
  kind := .module
  name := .ofList ("module_".toList ++ Text.decimal position)
  sourceText := .ofList piece.text
  docstring := none
  comments := []
  parentClass := none
  startLine := .ofNat piece.start
  endLine := .ofNat (piece.start + piece.lines.length - 1)

def split (source : String) (budget : Nat) : List Element :=
  ((pieces budget source.toList).filter (! ·.blank)).mapIdx fun position piece =>
    piece.toElement position

end CodeIndex.ModulePieces
