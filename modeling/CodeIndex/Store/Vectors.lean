import CodeIndex.Json.Printer
import CodeIndex.Metadata
import CodeIndex.Store

namespace CodeIndex.Store

def embeddingOf? (store : Store) (id : String) : Option EmbeddingRow :=
  store.embeddings.find? (·.embeddingId == id)

def putEmbedding (rows : List EmbeddingRow) (row : EmbeddingRow) : List EmbeddingRow :=
  if rows.any (·.embeddingId == row.embeddingId) then
    rows.map fun old => if old.embeddingId = row.embeddingId then row else old
  else rows ++ [row]

def upsertVector (store : Store) (id content : String) (vector : Embedding)
    (metadata : Metadata) : Except StoreError Store :=
  if vector.length ≠ store.dimensions then
    .error (.vectorWidth vector.length store.dimensions)
  else
    let next := store.lastEmbedding + 1
    let rowId := ((store.embeddingOf? id).map (·.rowId)).getD next
    let row : EmbeddingRow :=
      ⟨rowId, id, metadata.filePath, content, metadata.toJson.compactText⟩
    .ok { store with
      embeddings := putEmbedding store.embeddings row
      vectors := store.vectors.filter (·.rowId != rowId) ++ [⟨rowId, vector⟩]
      lastEmbedding := next }

def eraseVector (store : Store) (id : String) : Store :=
  let rowIds := (store.embeddings.filter (·.embeddingId == id)).map (·.rowId)
  { store with
    embeddings := store.embeddings.filter (·.embeddingId != id)
    vectors := store.vectors.filter fun row => !rowIds.contains row.rowId }

def deleteVectors (store : Store) : List String → Nat × Store
  | [] => (0, store)
  | id :: ids =>
    let here := (store.embeddings.filter (·.embeddingId == id)).length
    let (removed, after) := deleteVectors (store.eraseVector id) ids
    (here + removed, after)

end CodeIndex.Store
