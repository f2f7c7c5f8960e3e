import CodeIndex.IndexRun
import CodeIndex.Store.Search

namespace CodeIndex

def FileRow.members (file : FileRow) : List (String × Json) :=
  [("id", .int file.id), ("path", .text file.path), ("language", .text file.language)]

def Chunk.toJson (chunk : Chunk) : Json := .object [
  ("id", .text chunk.id.text),
  ("file_id", .int chunk.fileId),
  ("type", chunk.kind.toJson),
  ("name", .text chunk.name),
  ("parent_class", .option .text chunk.parentClass),
  ("start_line", .nat chunk.startLine.toNat),
  ("end_line", .nat chunk.endLine.toNat),
  ("embedding_id", .text chunk.embeddingId)]

def FeedbackRow.members (feedback : FeedbackRow) : List (String × Json) :=
  [("id", .nat feedback.id), ("chunk_id", .text feedback.chunkId),
   ("feedback_type", .text feedback.kind), ("comment", .option .text feedback.comment)]

def Hit.toJson (score : Float → Json) (hit : Hit) : Json := .object [
  ("embedding_id", .text hit.embeddingId),
  ("content", .text hit.content),
  ("metadata", hit.metadata.toJson),
  ("similarity", score hit.similarity)]

def Stats.members (stats : Stats) : List (String × Json) :=
  [("file_count", .nat stats.fileCount),
   ("chunk_count", .nat stats.chunkCount),
   ("vector_count", .nat stats.vectorCount),
   ("feedback_count", .nat stats.feedbackCount),
   ("dimensions", .nat stats.dimensions),
   ("languages", .arr (stats.languages.map Json.text))]

def ReconcileResult.toJson (result : ReconcileResult) : Json := .object [
  ("files_touched", .nat result.filesTouched),
  ("chunks_added", .nat result.chunksAdded),
  ("chunks_failed", .nat result.chunksFailed)]

def IndexSummary.toJson (summary : IndexSummary) : Json := .object [
  ("files_processed", .nat summary.filesProcessed),
  ("files_failed", .nat summary.filesFailed),
  ("chunks_added", .nat summary.chunksAdded),
  ("chunks_failed", .nat summary.chunksFailed)]

end CodeIndex
