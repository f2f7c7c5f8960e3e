import CodeIndex.Command.Arguments
import CodeIndex.Command.Database

namespace CodeIndex

-- What a command finds around it: the files, the root that the environment names, and a runtime
-- that tells what a model file holds.
structure Surroundings where
  workspace : Workspace
  environment : Option String
  readModel : Content → ModelFile

namespace Surroundings

def modelFiles (around : Surroundings) (directory : String) : ModelFiles where
  model := (around.workspace.at? (Path.join directory "model.onnx")).map fun
    | .file content => around.readModel content
    | .dir _ => .unreadable
  tokenizer := (around.workspace.at? (Path.join directory "tokenizer.json")).map fun
    | .file content => content.text?.getD ""
    | .dir _ => ""

def root (around : Surroundings) (config : Config) : String :=
  config.root around.workspace.isDirAt around.environment

def database (around : Surroundings) (config : Config) : String :=
  config.database (around.root config)

end Surroundings

namespace Command

def embedder (around : Surroundings) (config : Config) (store : Store) :
    Except Failure Embedder :=
  if store.dimensions ≠ config.model.dimensions.toNat then
    .error (.modelWidth (around.database config) store.dimensions config.model.dimensions.toNat)
  else (Embedder.ofConfig config.model around.modelFiles).mapError .model

def reconciler (config : Config) (embedder : Embedder) : Reconciler where
  embedder := embedder
  classChunks := config.indexClasses
  moduleFallback := if config.moduleFallback then some config.maxChunkSize.toNat else none

def indexOptions (config : Config) (extensions : List String) (flat : Bool) : IndexOptions where
  extensions := if extensions.isEmpty then config.extensions else extensions
  recursive := config.recursive && !flat

def runIndex (around : Surroundings) (config : Config) (fresh : Nat → ChunkId) (store : Store)
    (path : Option String) (options : IndexOptions) : Except Failure Answer × Store :=
  match embedder around config store with
  | .error failure => (.error failure, store)
  | .ok embedder =>
    let directory := path.getD (around.root config)
    let files := around.workspace.walk directory options.recursive
    let (summary, after) := (reconciler config embedder).indexFiles options fresh store files
    (.ok (.indexed summary), after)

def runSearch (around : Surroundings) (config : Config) (store : Store) (query : String)
    (k : Option UInt64) : Except Failure Answer := do
  let embedder ← embedder around config store
  let vector ← (embedder.embed (queryText query)).mapError Failure.embed
  let hits ← (store.search vector (k.getD config.searchTopK)).mapError Failure.store
  return .hits hits

-- The rows are gone before the width is tried, and stay gone if it is impossible.
def runClear (config : Config) (store : Store) : Except Failure Answer × Store :=
  let width := config.model.dimensions.toNat
  let cleared := store.clear
  if cleared.dimensions = width then (.ok (.cleared width), cleared)
  else match cleared.rebuild width with
    | .error error => (.error (.store error), cleared)
    | .ok rebuilt => (.ok (.cleared width), rebuilt)

def execute (around : Surroundings) (config : Config) (fresh : Nat → ChunkId) (store : Store) :
    Command → Except Failure Answer × Store
  | .index path extensions flat =>
    runIndex around config fresh store path (indexOptions config extensions flat)
  | .files => (.ok (.files store.listFiles), store)
  | .chunks fileId => (((store.listChunks fileId).mapError .store).map .chunks, store)
  | .addFeedback chunk kind comment =>
    let (row, after) := store.addFeedback chunk kind comment
    (.ok (.noted row), after)
  | .listFeedback chunk => (.ok (.notes (store.listFeedback chunk)), store)
  | .search query k => (runSearch around config store query k, store)
  | .forget path =>
    let (removed, after) := store.deleteFile path
    (.ok (.forgotten path removed), after)
  | .stats => (.ok (.stats store.stats), store)
  | .clear => runClear config store

def invoke (around : Surroundings) (config : Config) (fresh : Nat → ChunkId) (command : Command) :
    Except Failure Answer × Workspace :=
  let path := around.database config
  match around.workspace.openDatabase path config.model.dimensions.toNat with
  | (.error failure, after) => (.error failure, after)
  | (.ok (home, store), opened) =>
    let (answer, changed) := execute { around with workspace := opened } config fresh store command
    (answer, opened.keep home changed.toTables)

def prepare (workspace : Workspace) (words : List String) : Except Failure (Config × Command) :=
  match Arguments.invocation? words with
  | none => .error .usage
  | some invocation => do
    let config ← (Config.load workspace invocation.config).mapError
      (Failure.configFile invocation.config)
    config.validate.mapError Failure.config
    return (config, invocation.command)

def run (around : Surroundings) (fresh : Nat → ChunkId) (words : List String) :
    Except Failure Answer × Workspace :=
  match prepare around.workspace words with
  | .error failure => (.error failure, around.workspace)
  | .ok (config, command) => invoke around config fresh command

end Command
end CodeIndex
