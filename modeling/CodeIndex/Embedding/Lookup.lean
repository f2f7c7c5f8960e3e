import CodeIndex.Embedding.Hashed
import CodeIndex.Embedding.Tokenizer

namespace CodeIndex

inductive Pooling where
  | cls | mean
deriving DecidableEq, Repr

def Pooling.name : Pooling → String
  | .cls => "cls"
  | .mean => "mean"

def Pooling.ofName? (name : String) : Option Pooling :=
  [Pooling.cls, .mean].find? (·.name == name)

structure LookupModel where
  rows : List Embedding
  takesSegments : Bool

namespace LookupModel

def run? (model : LookupModel) (ids : List Nat) : Option (List Embedding) :=
  ids.mapM (model.rows[·]?)

end LookupModel

def addWeighted (sum row : Embedding) (weight : Float32) : Embedding :=
  List.zipWith (fun total x => total + x * weight) sum row

def meanPool (width : Nat) (rows : List Embedding) (mask : List Nat) : Embedding :=
  let start : Embedding × Float32 := (List.replicate width 0, 0)
  let (sum, weight) := (List.zip rows mask).foldl
    (fun (sum, weight) (row, m) =>
      let m := m.toUInt64.toFloat32
      (addWeighted sum row m, weight + m)) start
  if 0 < weight then sum.map (· / weight) else sum

def unitLength (vector : Embedding) : Embedding :=
  let norm := (Hashed.squareSum vector).sqrt
  if norm == 0 then vector else vector.map (· / norm)

-- A mean cuts the model's answer into rows by their width, so there has to be one.
structure LookupEmbedder where
  tokenizer : Tokenizer
  model : LookupModel
  dimensions : Nat
  pooling : Pooling
  feedSegments : Bool
  poolable : pooling = .mean → dimensions = 0 → ∀ row ∈ model.rows, row ≠ []

namespace LookupEmbedder

-- A model that takes segment ids can do without them, but others cannot be fed any.
def infer (encoder : LookupEmbedder) (ids : List Nat) : Except EmbedError (List Embedding) :=
  if encoder.feedSegments && !encoder.model.takesSegments then .error .modelRun
  else match encoder.model.run? ids with
    | some rows => .ok rows
    | none => .error .modelRun

def pool (encoder : LookupEmbedder) (rows : List Embedding) (mask : List Nat) : Embedding :=
  match encoder.pooling with
  | .cls => rows.headD []
  | .mean => meanPool (rows.headD []).length rows mask

def embed (encoder : LookupEmbedder) (text : String) : Except EmbedError Embedding :=
  match encoder.tokenizer.encode? text with
  | none => .error .unknownWord
  | some encoded =>
    if encoded.ids.isEmpty then .error .emptySequence
    else do
      let rows ← encoder.infer encoded.ids
      let width := (rows.headD []).length
      if width = encoder.dimensions then
        return unitLength (encoder.pool rows encoded.mask)
      else throw (.widthMismatch encoder.dimensions width)

def toEmbedder (encoder : LookupEmbedder) : Embedder := ⟨encoder.dimensions, encoder.embed⟩

end LookupEmbedder
end CodeIndex
