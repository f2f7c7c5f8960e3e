import CodeIndex.Json.Decode
import CodeIndex.Json.Reader
import CodeIndex.Numeric.Binary
import CodeIndex.Store.Vectors

namespace CodeIndex

structure Hit where
  embeddingId : String
  content : String
  metadata : Metadata
  similarity : Float

structure Products where
  dot : Float32
  left : Float32
  right : Float32

def Products.add (sums : Products) (a b : Float32) : Products :=
  ⟨sums.dot + a * b, sums.left + a * a, sums.right + b * b⟩

def products (a b : Embedding) : Products :=
  (a.zip b).foldl (fun sums (x, y) => sums.add x y) ⟨0, 0, 0⟩

def cosineDistance (a b : Embedding) : Option Float32 :=
  let sums := products a b
  let lengths := (Numeric.widen sums.left).sqrt * (Numeric.widen sums.right).sqrt
  let distance := 1 - Numeric.widen sums.dot / lengths
  if distance.isNaN then none else some (Numeric.narrow distance)

-- The two zeros share a place.
def orderKey (x : Float32) : Int :=
  let bits := x.toBits.toNat
  if bits < 0x80000000 then bits else -((bits : Int) - 0x80000000)

-- A distance that is not a number is missing. Missing ones come before all others.
def nearer : Option Float32 → Option Float32 → Bool
  | none, _ => true
  | some _, none => false
  | some x, some y => orderKey x ≤ orderKey y

def similarity (distance : Float32) : Float := 1 - Numeric.widen distance / 2

structure Candidate where
  row : EmbeddingRow
  distance : Option Float32

def Candidate.read (candidate : Candidate) : Except StoreError Hit :=
  match (Json.read? candidate.row.metadata).bind Metadata.ofJson? with
  | none => .error .unreadableMetadata
  | some metadata =>
    match candidate.distance with
    | none => .error .missingDistance
    | some distance => .ok {
        embeddingId := candidate.row.embeddingId
        content := candidate.row.content
        metadata := metadata
        similarity := similarity distance }

-- A count from `2 ^ 63` on is negative as a signed word, which is no limit.
def limit (k : UInt64) (items : List α) : List α :=
  if k.toNat < 9223372036854775808 then items.take k.toNat else items

namespace Store

def candidates (store : Store) (distance : Embedding → Embedding → Option Float32)
    (query : Embedding) : List Candidate :=
  store.vectors.filterMap fun vector =>
    (store.embeddings.find? (·.rowId == vector.rowId)).map fun row =>
      ⟨row, distance vector.vector query⟩

def searchBy (distance : Embedding → Embedding → Option Float32) (store : Store)
    (query : Embedding) (k : UInt64) : Except StoreError (List Hit) :=
  if query.length ≠ store.dimensions then .error (.vectorWidth query.length store.dimensions)
  else
    let ranked := (store.candidates distance query).mergeSort fun a b =>
      nearer a.distance b.distance
    (limit k ranked).mapM Candidate.read

def search (store : Store) (query : Embedding) (k : UInt64) : Except StoreError (List Hit) :=
  store.searchBy cosineDistance query k

end Store

end CodeIndex
