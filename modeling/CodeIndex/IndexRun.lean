import CodeIndex.Reconcile
import CodeIndex.Workspace.Walk

namespace CodeIndex

structure IndexOptions where
  extensions : List String := []
  recursive : Bool := true
deriving DecidableEq, Repr

namespace IndexOptions

def sameLetters (a b : List Char) : Bool := Text.lowerAscii a = Text.lowerAscii b

def accepts (options : IndexOptions) (extension : String) : Bool :=
  if options.extensions.isEmpty then (Language.ofExtension extension).supported
  else options.extensions.any fun listed =>
    sameLetters (listed.toList.dropWhile (· = '.')) extension.toList

end IndexOptions

structure IndexSummary where
  filesProcessed : Nat := 0
  filesFailed : Nat := 0
  chunksAdded : Nat := 0
  chunksFailed : Nat := 0
deriving DecidableEq, Repr

def IndexSummary.add (summary : IndexSummary) : Option ReconcileResult → IndexSummary
  | none => { summary with filesFailed := summary.filesFailed + 1 }
  | some result => { summary with
      filesProcessed := summary.filesProcessed + result.filesTouched
      chunksAdded := summary.chunksAdded + result.chunksAdded
      chunksFailed := summary.chunksFailed + result.chunksFailed }

namespace Reconciler

def indexFile (reconciler : Reconciler) (fresh : Nat → ChunkId) (store : Store) (file : FoundFile) :
    Option ReconcileResult × Store :=
  match file.content with
  | .source source =>
    let language := Language.ofExtension (Path.extension file.path)
    match reconciler.reconcile fresh store (Path.key file.path) source language with
    | (.ok result, after) => (some result, after)
    | (.error _, after) => (none, after)
  | _ => (none, store)

def indexNext (reconciler : Reconciler) (fresh : Nat → ChunkId) (state : IndexSummary × Store)
    (file : FoundFile) : IndexSummary × Store :=
  let (summary, store) := state
  let (result, after) := reconciler.indexFile (fun i => fresh (summary.chunksAdded + i)) store file
  (summary.add result, after)

def indexFiles (reconciler : Reconciler) (options : IndexOptions) (fresh : Nat → ChunkId)
    (store : Store) (files : List FoundFile) : IndexSummary × Store :=
  (files.filter fun file => options.accepts (Path.extension file.path)).foldl
    (reconciler.indexNext fresh) ({}, store)

end Reconciler
end CodeIndex
