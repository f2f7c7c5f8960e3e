import CodeIndex.Config

namespace CodeIndex

inductive ModelFile where
  | lookup (model : LookupModel)
  | unreadable

structure ModelFiles where
  model : Option ModelFile
  tokenizer : Option String

inductive ModelError where
  | noPath
  | noModel (directory : String)
  | tokenizer (error : TokenizerError)
  | unreadable
  | unknownModel (name : String)
deriving DecidableEq, Repr

def ModelError.message : ModelError → String
  | .noPath => "model load failed: model.path is required for onnx"
  | .noModel directory => "model load failed: model.onnx not found in " ++ directory
  | .tokenizer error => "model load failed: tokenizer error: " ++ error.message
  | .unreadable => "model load failed: model load error"
  | .unknownModel name => "model load failed: unknown embedding model: " ++ name

-- The model file is looked for first, but the tokenizer is read before it.
def LookupEmbedder.load (config : ModelConfig) (directory : String) (files : ModelFiles) :
    Except ModelError LookupEmbedder :=
  match files.model with
  | none => .error (.noModel directory)
  | some file =>
    match Tokenizer.load directory files.tokenizer with
    | .error error => .error (.tokenizer error)
    | .ok tokenizer =>
      match file with
      | .unreadable => .error .unreadable
      | .lookup model =>
        if poolable : config.pooling = .mean → config.dimensions.toNat = 0 →
            ∀ row ∈ model.rows, row ≠ [] then
          .ok {
            tokenizer := tokenizer
            model := model
            dimensions := config.dimensions.toNat
            pooling := config.pooling
            feedSegments := config.segmentIds
            poolable := poolable }
        else .error .unreadable

def Embedder.ofConfig (config : ModelConfig) (filesIn : String → ModelFiles) :
    Except ModelError Embedder :=
  if config.name = "mock" then .ok (Hashed.embedder config.dimensions.toNat)
  else if config.name = "onnx" then
    match config.path with
    | none => .error .noPath
    | some directory =>
      (LookupEmbedder.load config directory (filesIn directory)).map LookupEmbedder.toEmbedder
  else .error (.unknownModel config.name)

end CodeIndex
