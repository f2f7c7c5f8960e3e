import CodeIndex.Embedding.Lookup
import CodeIndex.Workspace.Path

namespace CodeIndex

def defaultDimensions : Nat := 384

structure ModelConfig where
  name : String := "mock"
  dimensions : UInt64 := .ofNat defaultDimensions
  path : Option String := none
  pooling : Pooling := .cls
  segmentIds : Bool := false
deriving DecidableEq, Repr

structure Config where
  dbPath : Option String := none
  workspaceRoot : Option String := none
  extensions : List String := []
  recursive : Bool := true
  maxChunkSize : UInt64 := 1000
  moduleFallback : Bool := false
  indexClasses : Bool := false
  searchTopK : UInt64 := 5
  model : ModelConfig := {}
deriving DecidableEq, Repr

inductive ConfigError where
  | noChunkSize
  | noTopK
  | noDimensions
  | blankDbPath
  | noModelPath
  | unknownModel (name : String)
deriving DecidableEq, Repr

def ConfigError.message : ConfigError → String
  | .noChunkSize => "max_chunk_size must be positive"
  | .noTopK => "search_top_k must be positive"
  | .noDimensions => "model.dimensions must be positive"
  | .blankDbPath => "db_path must not be empty"
  | .noModelPath => "model.path is required when model.name is onnx"
  | .unknownModel name => "unknown model.name: " ++ name

namespace Config

def validateModel (model : ModelConfig) : Except ConfigError Unit :=
  if model.name = "mock" then .ok ()
  else if model.name = "onnx" then
    if model.path.any (!Text.allBlank ·) then .ok () else .error .noModelPath
  else .error (.unknownModel model.name)

def validate (config : Config) : Except ConfigError Unit :=
  if config.maxChunkSize = 0 then .error .noChunkSize
  else if config.searchTopK = 0 then .error .noTopK
  else if config.model.dimensions = 0 then .error .noDimensions
  else if config.dbPath.any Text.allBlank then .error .blankDbPath
  else validateModel config.model

def root (config : Config) (isDir : String → Bool) (environment : Option String) : String :=
  match environment.filter isDir with
  | some path => path
  | none => config.workspaceRoot.getD "."

def database (config : Config) (root : String) : String :=
  match config.dbPath with
  | some path => Path.join root path
  | none => Path.join (Path.join root ".devflow") "devflow.db"

end Config
end CodeIndex
