import CodeIndex.ChunkId
import CodeIndex.Store.Vectors

namespace CodeIndex

structure Chunk where
  id : ChunkId
  fileId : Int
  kind : ElementKind
  name : String
  parentClass : Option String
  startLine : UInt64
  endLine : UInt64
  embeddingId : String
deriving DecidableEq, Repr

structure NewChunk where
  id : ChunkId
  kind : ElementKind
  name : String
  parentClass : Option String
  startLine : UInt64
  endLine : UInt64
  content : String
  vector : Embedding
  metadata : Metadata

def ChunkRow.read (row : ChunkRow) : Except StoreError Chunk :=
  match ChunkId.ofText? row.id with
  | none => .error .unreadableChunkId
  | some id =>
    match ElementKind.ofName? row.kind with
    | none => .error (.unreadableKind row.kind)
    | some kind => .ok {
        id := id
        fileId := row.fileId
        kind := kind
        name := row.name
        parentClass := row.parentClass
        startLine := row.startLine.toUInt64
        endLine := row.endLine.toUInt64
        embeddingId := row.embeddingId }

def NewChunk.row (chunk : NewChunk) (fileId : Int) : ChunkRow where
  id := chunk.id.text
  fileId := fileId
  kind := chunk.kind.name
  name := chunk.name
  parentClass := chunk.parentClass
  startLine := chunk.startLine.toInt64
  endLine := chunk.endLine.toInt64
  embeddingId := chunk.id.text

structure Stats where
  fileCount : Nat
  chunkCount : Nat
  vectorCount : Nat
  feedbackCount : Nat
  dimensions : Nat
  languages : List String
  indexed : Bool
deriving DecidableEq, Repr

namespace Store

def fileByPath? (store : Store) (path : String) : Option FileRow :=
  store.files.find? (·.path == path)

-- A number is used up in any case.
def upsertFile (store : Store) (path language : String) : FileRow × Store :=
  let next := store.lastFile + 1
  match store.fileByPath? path with
  | some known =>
    let row := { known with language := language }
    (row, { store with
      files := store.files.map fun old => if old.path = path then row else old
      lastFile := next })
  | none =>
    let row : FileRow := ⟨next, path, language⟩
    (row, { store with files := store.files ++ [row], lastFile := next })

def listFiles (store : Store) : List FileRow :=
  store.files.mergeSort fun a b => !decide (b.path < a.path)

def rowsOf (store : Store) (fileId : Int) : List ChunkRow :=
  store.chunks.filter (·.fileId == fileId)

def rowBefore (a b : ChunkRow) : Bool :=
  decide (a.startLine < b.startLine) ||
    (a.startLine == b.startLine && decide (a.endLine ≤ b.endLine))

def listChunks (store : Store) (fileId : Int) : Except StoreError (List Chunk) :=
  ((store.rowsOf fileId).mergeSort rowBefore).mapM ChunkRow.read

def getChunk (store : Store) (id : String) : Except StoreError (Option Chunk) :=
  match store.chunks.find? (·.id == id) with
  | none => .ok none
  | some row => row.read.map some

def dropChunks (store : Store) (fileId : Int) : Nat × Store :=
  let stale := store.rowsOf fileId
  let (_, pruned) := store.deleteVectors (stale.map (·.embeddingId))
  (stale.length, { pruned with chunks := pruned.chunks.filter (·.fileId != fileId) })

def insertRow (store : Store) (row : ChunkRow) : Except StoreError Store :=
  if store.chunks.any (·.id == row.id) then .error .duplicateChunk
  else if !store.files.any (·.id == row.fileId) then .error .unknownFile
  else .ok { store with chunks := store.chunks ++ [row] }

def insertChunk (fileId : Int) (store : Store) (chunk : NewChunk) : Except StoreError Store := do
  let stored ← store.upsertVector chunk.id.text chunk.content chunk.vector chunk.metadata
  stored.insertRow (chunk.row fileId)

def replaceChunks (store : Store) (fileId : Int) (chunks : List NewChunk) :
    Except StoreError (Nat × Store) := do
  let (removed, pruned) := store.dropChunks fileId
  let filled ← chunks.foldlM (insertChunk fileId) pruned
  return (removed, filled)

def deleteFile (store : Store) (path : String) : Bool × Store :=
  match store.fileByPath? path with
  | none => (false, store)
  | some file =>
    let (_, pruned) := store.dropChunks file.id
    (true, { pruned with files := pruned.files.filter (·.id != file.id) })

def addFeedback (store : Store) (chunkId kind : String) (comment : Option String) :
    FeedbackRow × Store :=
  let row : FeedbackRow := ⟨store.lastFeedback + 1, chunkId, kind, comment⟩
  (row, { store with feedback := store.feedback ++ [row], lastFeedback := row.id })

def listFeedback (store : Store) (chunkId : String) : List FeedbackRow :=
  (store.feedback.filter (·.chunkId == chunkId)).reverse

def everIndexed (store : Store) : Bool := !store.files.isEmpty

def languages (store : Store) : List String :=
  (store.files.map (·.language)).eraseDups.mergeSort fun a b => !decide (b < a)

def stats (store : Store) : Stats where
  fileCount := store.files.length
  chunkCount := store.chunks.length
  vectorCount := store.embeddings.length
  feedbackCount := store.feedback.length
  dimensions := store.dimensions
  languages := store.languages
  indexed := store.everIndexed

end Store
end CodeIndex
