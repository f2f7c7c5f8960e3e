namespace CodeIndex

structure ByteSet where
  negated : Bool
  ranges : List (UInt8 × UInt8)
deriving DecidableEq, Repr

def ByteSet.contains (set : ByteSet) (byte : UInt8) : Bool :=
  (set.ranges.any fun (low, high) => low ≤ byte && byte ≤ high) != set.negated

inductive Glob where
  | empty
  | byte (set : ByteSet)
  | run
  | all
  | seq (first second : Glob)
  | alt (left right : Glob)
deriving DecidableEq, Repr

namespace Glob

def slashByte : UInt8 := 47

def oneByte (b : UInt8) : Glob := .byte ⟨false, [(b, b)]⟩

def slash : Glob := oneByte slashByte

def anyByte : Glob := .byte ⟨true, [(slashByte, slashByte)]⟩

def ofList (globs : List Glob) : Glob := globs.foldr .seq .empty

def literal (c : Char) : Glob := ofList ((String.singleton c).toUTF8.toList.map oneByte)

def dirsAbove : Glob := .alt (.alt .empty slash) (.seq .all slash)

def dirsBelow : Glob := .seq slash .all

def dirsBetween : Glob := .alt slash (.seq slash (.seq .all slash))

def oneOf : List Glob → Glob
  | [] => .empty
  | [glob] => glob
  | glob :: rest => .alt glob (oneOf rest)

def endings : List α → List (List α)
  | [] => [[]]
  | x :: xs => (x :: xs) :: endings xs

def afterRun : List UInt8 → List (List UInt8)
  | [] => [[]]
  | b :: bytes => (b :: bytes) :: (if b = slashByte then [] else afterRun bytes)

-- What can be left of some bytes after the pattern took its part from their start.
def rests : Glob → List UInt8 → List (List UInt8)
  | .empty, bytes => [bytes]
  | .byte set, bytes => match bytes with
    | [] => []
    | b :: rest => if set.contains b then [rest] else []
  | .run, bytes => afterRun bytes
  | .all, bytes => endings bytes
  | .seq first second, bytes => ((first.rests bytes).flatMap second.rests).eraseDups
  | .alt left right, bytes => left.rests bytes ++ right.rests bytes

def matchesPath (glob : Glob) (path : String) : Bool :=
  (glob.rests path.toUTF8.toList).any List.isEmpty

end Glob
end CodeIndex
