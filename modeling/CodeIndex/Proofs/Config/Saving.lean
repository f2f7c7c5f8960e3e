import CodeIndex.Config.File
import CodeIndex.Proofs.Json.Layout
import CodeIndex.Proofs.Metadata
import CodeIndex.Proofs.Workspace.Saving

set_option autoImplicit false

namespace CodeIndex

theorem Json.as_list_texts (texts : List String) : Json.asList? Json.asText? (.arr (texts.map .text)) = some texts := by
  rw [asList?, asItems?, Option.bind_some]
  induction texts with
  | nil => rfl
  | cons text rest ih => rw [List.map_cons, List.mapM_cons, ih]; rfl

theorem Json.optional_present {α : Type} (default : α) (decode : Json → Option α) (json : Json) :
    Json.optional default decode (some json) = decode json := rfl

theorem Pooling.of_json_to_json (pooling : Pooling) : ofJson? pooling.toJson = some pooling := by
  cases pooling <;> decide

namespace ModelConfig

theorem fields_written (model : ModelConfig) : model.toJson.fields? fieldNames =
    some [some (.text model.name), some (.nat model.dimensions.toNat), model.path.map .text, some model.pooling.toJson,
      some (.bool model.segmentIds)] := by
  cases path : model.path <;>
    simp [toJson, path, Json.object, Json.fields?, fieldNames, Json.memberOf?, Json.valuesOf]

theorem of_json_to_json (model : ModelConfig) : ofJson? model.toJson = some model := by
  rw [ofJson?, fields_written, Option.bind_some]
  simp only [ofFields?, Json.optional_text, Json.optional_present, Json.as_word_nat, Pooling.of_json_to_json]
  rfl

end ModelConfig

namespace Config

theorem fields_written (config : Config) : config.toJson.fields? fieldNames =
    some [config.dbPath.map .text, config.workspaceRoot.map .text, some (.arr (config.extensions.map .text)),
      some (.bool config.recursive), some (.nat config.maxChunkSize.toNat), some (.bool config.moduleFallback),
      some (.bool config.indexClasses), some (.nat config.searchTopK.toNat), some config.model.toJson] := by
  cases dbPath : config.dbPath <;> cases root : config.workspaceRoot <;>
    simp [toJson, dbPath, root, Json.object, Json.fields?, fieldNames, Json.memberOf?, Json.valuesOf]

theorem of_json_to_json (config : Config) : ofJson? config.toJson = some config := by
  rw [ofJson?, fields_written, Option.bind_some]
  simp only [ofFields?, Json.optional_text, Json.optional_present, Json.as_list_texts, Json.as_word_nat,
    ModelConfig.of_json_to_json]
  rfl

theorem of_text_to_text (config : Config) : ofText config.toText = config := by
  rw [ofText, toText, Json.read_pretty_text, Option.bind_some, of_json_to_json, Option.getD_some]

end Config

theorem configuration_survives_saving (config : Config) :
    Config.ofText config.toText = config ∧
    ∀ (workspace after : Workspace) (path : String), config.save? workspace path = some after →
      Config.load after path = .ok config := by
  refine ⟨config.of_text_to_text, fun workspace after path saved => ?_⟩
  have found := Entry.save_found workspace after path config.toText saved
  have text : Entry.readText after path = .ok (some config.toText) := by
    rw [Entry.readText, found]
    rfl
  rw [Config.load, text]
  exact congrArg Except.ok config.of_text_to_text

def oddConfig : Config where
  dbPath := some "\"\\\x00\x1f\x7f é\n"
  extensions := ["", "\t", "\x7b]:,"]
  recursive := false
  maxChunkSize := 18446744073709551615
  searchTopK := 0
  model := { name := "\r\x08\x0c", path := some "", pooling := .mean, segmentIds := true }

def filledWorkspace : Workspace := .dir [("a", .dir []), ("devflow.json", .file (.binary [0]))]

theorem odd_config_saved : ∃ after, oddConfig.save? filledWorkspace "a/.././devflow.json" = some after ∧
    Config.load after "a/.././devflow.json" = .ok oddConfig := by
  have fits : (oddConfig.save? filledWorkspace "a/.././devflow.json").isSome = true := by decide +kernel
  obtain ⟨after, saved⟩ := Option.isSome_iff_exists.mp fits
  exact ⟨after, saved, (configuration_survives_saving oddConfig).2 filledWorkspace after _ saved⟩

end CodeIndex
