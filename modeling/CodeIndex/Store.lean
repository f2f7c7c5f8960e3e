import CodeIndex.Embedding

namespace CodeIndex

structure FileRow where
  id : Int
  path : String
  language : String
deriving DecidableEq, Repr

-- Identifier and kind are kept as text, and are checked only when a row is read.
structure ChunkRow where
  id : String
  fileId : Int
  kind : String
  name : String
  parentClass : Option String
  startLine : Int64
  endLine : Int64
  embeddingId : String
deriving DecidableEq, Repr

structure EmbeddingRow where
  rowId : Nat
  embeddingId : String
  filePath : String
  content : String
  metadata : String
deriving DecidableEq, Repr

structure VectorRow where
  rowId : Nat
  vector : Embedding

-- A chunk is named by text only, so feedback outlives it.
structure FeedbackRow where
  id : Nat
  chunkId : String
  kind : String
  comment : Option String
deriving DecidableEq, Repr

structure Tables where
  files : List FileRow := []
  chunks : List ChunkRow := []
  embeddings : List EmbeddingRow := []
  vectors : List VectorRow := []
  feedback : List FeedbackRow := []
  lastFile : Int := 0
  lastEmbedding : Nat := 0
  lastFeedback : Nat := 0
  declaration : Option String := none

structure Store extends Tables where
  dimensions : Nat

inductive StoreError where
  | vectorWidth (actual expected : Nat)
  | duplicateChunk
  | unknownFile
  | unreadableWidth (width : Nat)
  | excessiveWidth (width : Nat)
  | unreadableChunkId
  | unreadableKind (kind : String)
  | unreadableMetadata
  | missingDistance
deriving DecidableEq, Repr

namespace StoreError

def message : StoreError → String
  | .vectorWidth actual expected =>
    "vector has " ++ Text.decimalText actual ++ " dimensions, index expects " ++
      Text.decimalText expected
  | .duplicateChunk => "UNIQUE constraint failed: chunks.id"
  | .unknownFile => "FOREIGN KEY constraint failed"
  | .unreadableWidth width =>
    "vec0 constructor error: could not parse vector column 'embedding FLOAT[" ++
      Text.decimalText width ++ "]'"
  | .excessiveWidth width =>
    "vec0 constructor error: Dimension on vector column too large, provided " ++
      Text.decimalText width ++ ", maximum 8192"
  | .unreadableChunkId => "Conversion error from type Text at index: 0"
  | .unreadableKind kind => ElementKind.unknownMessage kind
  | .unreadableMetadata => "Conversion error from type Text at index: 2"
  | .missingDistance => "Invalid column type Null at index: 3, name: distance"

def chain (error : StoreError) : List String :=
  match error with
  | .unreadableWidth _ | .excessiveWidth _ =>
    [error.message, "Error code 1: SQL error or missing database"]
  | _ => [error.message]

end StoreError
end CodeIndex
