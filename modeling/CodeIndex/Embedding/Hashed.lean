import CodeIndex.Embedding
import CodeIndex.Hash.Sip

namespace CodeIndex.Hashed

def squareSum (vector : Embedding) : Float32 := vector.foldl (fun sum x => sum + x * x) 0

def textHash (text : String) : Hash.Sip :=
  (Hash.Sip.empty.write text.toUTF8.toList).write [0xff]

def component (seed : Hash.Sip) (position : Nat) : Float32 :=
  let hash := (seed.write (Hash.wordBytes (.ofNat position))).finish
  (hash % 2001).toFloat32 / 1000 - 1

def scale (vector : Embedding) : Embedding :=
  let sum := squareSum vector
  if 0 < sum then
    let factor := 1 / sum.sqrt
    vector.map (· * factor)
  else vector

def embed (dimensions : Nat) (text : String) : Embedding :=
  let seed := textHash text
  scale ((List.range dimensions).map (component seed))

def embedder (dimensions : Nat) : Embedder := ⟨dimensions, fun text => .ok (embed dimensions text)⟩

end CodeIndex.Hashed
