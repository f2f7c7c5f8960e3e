import CodeIndex.Config
import CodeIndex.Json.Decode
import CodeIndex.Json.Printer
import CodeIndex.Json.Reader

namespace CodeIndex

def Pooling.toJson (pooling : Pooling) : Json := .text pooling.name

def Pooling.ofJson? (json : Json) : Option Pooling := json.asChoice? Pooling.ofName?

namespace ModelConfig

def fieldNames : List String := ["name", "dimensions", "path", "pooling", "token_type_ids"]

def toJson (model : ModelConfig) : Json := .object (
  [("name", Json.text model.name),
   ("dimensions", .nat model.dimensions.toNat)] ++
  (model.path.map fun path => ("path", Json.text path)).toList ++
  [("pooling", model.pooling.toJson),
   ("token_type_ids", .bool model.segmentIds)])

def ofFields? : List (Option Json) → Option ModelConfig
  | [name, dimensions, path, pooling, segmentIds] => do
    let default : ModelConfig := {}
    return {
      name := ← Json.optional default.name Json.asText? name
      dimensions := ← Json.optional default.dimensions Json.asWord? dimensions
      path := ← Json.optional default.path (Json.asOption? Json.asText?) path
      pooling := ← Json.optional default.pooling Pooling.ofJson? pooling
      segmentIds := ← Json.optional default.segmentIds Json.asBool? segmentIds }
  | _ => none

def ofJson? (json : Json) : Option ModelConfig := (json.fields? fieldNames).bind ofFields?

end ModelConfig

namespace Config

def fieldNames : List String :=
  ["db_path", "workspace_root", "extensions", "recursive", "max_chunk_size", "module_fallback",
   "index_classes", "search_top_k", "model"]

def toJson (config : Config) : Json := .object (
  (config.dbPath.map fun path => ("db_path", Json.text path)).toList ++
  (config.workspaceRoot.map fun path => ("workspace_root", Json.text path)).toList ++
  [("extensions", .arr (config.extensions.map Json.text)),
   ("recursive", .bool config.recursive),
   ("max_chunk_size", .nat config.maxChunkSize.toNat),
   ("module_fallback", .bool config.moduleFallback),
   ("index_classes", .bool config.indexClasses),
   ("search_top_k", .nat config.searchTopK.toNat),
   ("model", config.model.toJson)])

def ofFields? : List (Option Json) → Option Config
  | [dbPath, workspaceRoot, extensions, recursive, maxChunkSize, moduleFallback, indexClasses,
      searchTopK, model] => do
    let default : Config := {}
    return {
      dbPath := ← Json.optional default.dbPath (Json.asOption? Json.asText?) dbPath
      workspaceRoot :=
        ← Json.optional default.workspaceRoot (Json.asOption? Json.asText?) workspaceRoot
      extensions := ← Json.optional default.extensions (Json.asList? Json.asText?) extensions
      recursive := ← Json.optional default.recursive Json.asBool? recursive
      maxChunkSize := ← Json.optional default.maxChunkSize Json.asWord? maxChunkSize
      moduleFallback := ← Json.optional default.moduleFallback Json.asBool? moduleFallback
      indexClasses := ← Json.optional default.indexClasses Json.asBool? indexClasses
      searchTopK := ← Json.optional default.searchTopK Json.asWord? searchTopK
      model := ← Json.optional default.model ModelConfig.ofJson? model }
  | _ => none

def ofJson? (json : Json) : Option Config := (json.fields? fieldNames).bind ofFields?

def ofText (text : String) : Config := ((Json.read? text).bind ofJson?).getD {}

def toText (config : Config) : String := config.toJson.prettyText

end Config
end CodeIndex
