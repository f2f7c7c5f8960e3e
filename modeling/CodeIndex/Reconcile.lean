import CodeIndex.Extraction
import CodeIndex.ModulePieces
import CodeIndex.Store.Registry

namespace CodeIndex

structure Reconciler where
  embedder : Embedder
  classChunks : Bool
  moduleFallback : Option Nat

structure ReconcileResult where
  filesTouched : Nat
  chunksAdded : Nat
  chunksFailed : Nat
deriving DecidableEq, Repr

inductive ReconcileError where
  | parse (error : ParseError)
  | store (error : StoreError)
deriving DecidableEq, Repr

def ReconcileError.message : ReconcileError → String
  | .parse error => "parse failed: " ++ error.message
  | .store error => "metadata store error: " ++ error.message

namespace Reconciler

def structural (reconciler : Reconciler) (language : Language) (tree : Node) (text : String) :
    List Element :=
  let elements := Extraction.extract language.nodeTable? tree text
  if reconciler.classChunks then elements else elements.filter (·.kind != .class)

def select (reconciler : Reconciler) (source : Source) (language : Language) :
    Except ParseError (List Element) :=
  if !language.supported then .ok []
  else do
    let tree ← source.parsed
    let elements := reconciler.structural language tree source.text
    match reconciler.moduleFallback with
    | some budget =>
      if elements.isEmpty then return ModulePieces.split source.text budget else return elements
    | none => return elements

def embedElement (reconciler : Reconciler) (language : Language) (dimensions : Nat)
    (element : Element) : Except EmbedError Embedding := do
  let vector ← reconciler.embedder.embed (embeddingText element language)
  if vector.length = dimensions then return vector
  else throw (.widthMismatch dimensions vector.length)

def embedAll (reconciler : Reconciler) (language : Language) (dimensions : Nat)
    (elements : List Element) : List (Element × Embedding) :=
  elements.filterMap fun element =>
    match reconciler.embedElement language dimensions element with
    | .ok vector => some (element, vector)
    | .error _ => none

end Reconciler

def NewChunk.ofElement (path : String) (language : Language) (id : ChunkId) (element : Element)
    (vector : Embedding) : NewChunk where
  id := id
  kind := element.kind
  name := element.name
  parentClass := element.parentClass
  startLine := element.startLine
  endLine := element.endLine
  content := element.sourceText
  vector := vector
  metadata := .ofElement path language element

structure Prepared where
  fileId : Int
  chunks : List NewChunk
  failed : Nat

namespace Reconciler

-- The work on the store is in two steps between which other work may happen: this one and `commit`.
def register (reconciler : Reconciler) (fresh : Nat → ChunkId) (store : Store) (path : String)
    (language : Language) (elements : List Element) : Prepared × Store :=
  let (file, registered) := store.upsertFile path language.name
  let embedded := reconciler.embedAll language registered.dimensions elements
  (⟨file.id,
    embedded.mapIdx fun i (element, vector) => .ofElement path language (fresh i) element vector,
    elements.length - embedded.length⟩,
   registered)

def commit (store : Store) (prepared : Prepared) : Except StoreError (ReconcileResult × Store) := do
  let (_, swapped) ← store.replaceChunks prepared.fileId prepared.chunks
  return (⟨1, prepared.chunks.length, prepared.failed⟩, swapped)

-- A failure of the second step keeps what the first did.
def reconcile (reconciler : Reconciler) (fresh : Nat → ChunkId) (store : Store) (path : String)
    (source : Source) (language : Language) : Except ReconcileError ReconcileResult × Store :=
  match reconciler.select source language with
  | .error error => (.error (.parse error), store)
  | .ok elements =>
    let (prepared, registered) := reconciler.register fresh store path language elements
    match commit registered prepared with
    | .error error => (.error (.store error), registered)
    | .ok (result, swapped) => (.ok result, swapped)

end Reconciler
end CodeIndex
