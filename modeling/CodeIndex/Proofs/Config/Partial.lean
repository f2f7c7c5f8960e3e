import CodeIndex.Proofs.Config.Saving
import CodeIndex.Proofs.Json.Records

set_option autoImplicit false

namespace CodeIndex

section Values

theorem Json.as_text_iff (json : Json) (text : String) : json.asText? = some text ↔ json = .text text := by
  cases json <;> simp [Json.asText?, Json.text]

theorem Json.as_bool_iff (json : Json) (value : Bool) : json.asBool? = some value ↔ json = .bool value := by
  cases json <;> simp [Json.asBool?]

theorem JsonNumber.nat_iff (number : JsonNumber) (n : Nat) : number.nat? = some n ↔ number = .ofNat n := by
  obtain ⟨negative, mantissa, places, exponent⟩ := number
  cases negative <;> cases exponent <;> simp [JsonNumber.nat?, JsonNumber.ofNat, and_comm]

theorem Json.as_word_iff (json : Json) (word : UInt64) : json.asWord? = some word ↔ json = .nat word.toNat := by
  constructor
  · intro found
    cases json with
    | num number =>
        obtain ⟨n, filtered, rfl⟩ := Option.map_eq_some_iff.mp found
        obtain ⟨value, bound⟩ := Option.filter_eq_some_iff.mp filtered
        rw [(JsonNumber.nat_iff number n).mp value, Json.nat, UInt64.toNat_ofNat_of_lt' (of_decide_eq_true bound)]
    | _ => cases found
  · rintro rfl
    exact Json.as_word_nat word

theorem Json.as_option_text_iff (json : Json) (value : Option String) :
    Json.asOption? Json.asText? json = some value ↔ json = .option .text value := by
  cases json with
  | null => cases value <;> simp [Json.asOption?, Json.option, Json.text]
  | str literal => cases value <;> simp [Json.asOption?, Json.option, Json.text, Json.asText?]
  | _ => cases value <;> simp [Json.asOption?, Json.option, Json.text, Json.asText?]

theorem Json.as_texts_iff (json : Json) (texts : List String) :
    Json.asList? Json.asText? json = some texts ↔ json = .arr (texts.map .text) := by
  constructor
  · intro found
    cases json with
    | arr items =>
        have each := (Json.all_some_iff Json.asText? items texts).mp found
        simp only [Json.as_text_iff] at each
        rw [List.forall₂_map_right_iff.symm, List.forall₂_eq_eq_eq] at each
        rw [each]
    | _ => cases found
  · rintro rfl
    exact Json.as_list_texts texts

def Pooling.form (pooling : Pooling) (wrapped : Bool) : Json :=
  if wrapped then .obj [(some pooling.name, .null)] else .text pooling.name

theorem Pooling.of_name_iff (name : String) (pooling : Pooling) : ofName? name = some pooling ↔ name = pooling.name := by
  constructor
  · intro found
    have named := List.find?_some found
    exact (beq_iff_eq.mp named).symm
  · rintro rfl
    cases pooling <;> rfl

theorem Pooling.of_json_iff (json : Json) (pooling : Pooling) : ofJson? json = some pooling ↔ ∃ wrapped, pooling.form wrapped = json := by
  rw [ofJson?]
  constructor
  · intro found
    unfold Json.asChoice? at found
    split at found
    · next name => exact ⟨false, by rw [(of_name_iff name pooling).mp found]; rfl⟩
    · next name => exact ⟨true, by rw [(of_name_iff name pooling).mp found]; rfl⟩
    · cases found
  · rintro ⟨wrapped, rfl⟩
    cases wrapped <;> exact (of_name_iff _ pooling).mpr rfl

end Values

namespace ModelConfig

inductive Setting where
  | name (value : String)
  | dimensions (value : UInt64)
  | path (value : Option String)
  | pooling (value : Pooling) (wrapped : Bool)
  | segmentIds (value : Bool)

def Setting.pair : Setting → String × Json
  | .name value => ("name", .text value)
  | .dimensions value => ("dimensions", .nat value.toNat)
  | .path value => ("path", .option .text value)
  | .pooling value wrapped => ("pooling", value.form wrapped)
  | .segmentIds value => ("token_type_ids", .bool value)

def set (model : ModelConfig) : Setting → ModelConfig
  | .name value => { model with name := value }
  | .dimensions value => { model with dimensions := value }
  | .path value => { model with path := value }
  | .pooling value _ => { model with pooling := value }
  | .segmentIds value => { model with segmentIds := value }

def ofSettings (settings : List Setting) : ModelConfig := settings.foldl set {}

theorem of_fields_iff (name dimensions path pooling segmentIds : Option Json) (model : ModelConfig) :
    ofFields? [name, dimensions, path, pooling, segmentIds] = some model ↔
      Json.optional ({} : ModelConfig).name Json.asText? name = some model.name ∧
      Json.optional ({} : ModelConfig).dimensions Json.asWord? dimensions = some model.dimensions ∧
      Json.optional ({} : ModelConfig).path (Json.asOption? Json.asText?) path = some model.path ∧
      Json.optional ({} : ModelConfig).pooling Pooling.ofJson? pooling = some model.pooling ∧
      Json.optional ({} : ModelConfig).segmentIds Json.asBool? segmentIds = some model.segmentIds := by
  rw [ofFields?]
  simp only [Option.bind_eq_bind, Option.bind_eq_some_iff]
  constructor
  · rintro ⟨_, first, _, second, _, third, _, fourth, _, fifth, found⟩
    cases found
    exact ⟨first, second, third, fourth, fifth⟩
  · rintro ⟨first, second, third, fourth, fifth⟩
    exact ⟨_, first, _, second, _, third, _, fourth, _, fifth, rfl⟩

theorem settings_read (settings : List Setting) (once : ((settings.map Setting.pair).map Prod.fst).Nodup) :
    ofFields? (fieldNames.map fun name => (settings.map Setting.pair).lookup name) = some (ofSettings settings) := by
  have each {α : Type} (get : ModelConfig → α) (name : String) (decode : Json → Option α) :=
    Json.field_set Setting.pair set get name decode settings {} once
  refine (of_fields_iff _ _ _ _ _ _).mpr ⟨each (·.name) _ _ ?_ ?_, each (·.dimensions) _ _ ?_ ?_, each (·.path) _ _ ?_ ?_,
    each (·.pooling) _ _ ?_ ?_, each (·.segmentIds) _ _ ?_ ?_⟩
  all_goals
    intro setting model key
    cases setting <;> first | rfl | exact absurd rfl key | simp only [Setting.pair, String.reduceEq] at key
  · exact Json.as_word_nat _
  · exact (Json.as_option_text_iff _ _).mpr rfl
  · exact (Pooling.of_json_iff _ _).mpr ⟨_, rfl⟩

theorem fields_typed (given : List (String × Json)) (model : ModelConfig)
    (read : ofFields? (fieldNames.map fun name => given.lookup name) = some model) (name : String) (listed : name ∈ fieldNames)
    (value : Json) (found : given.lookup name = some value) : ∃ setting : Setting, setting.pair = (name, value) := by
  simp only [fieldNames, List.map_cons, List.map_nil, of_fields_iff] at read
  obtain ⟨first, second, third, fourth, fifth⟩ := read
  simp only [fieldNames, List.mem_cons, List.not_mem_nil, or_false] at listed
  rcases listed with rfl | rfl | rfl | rfl | rfl
  · rw [found] at first
    exact ⟨.name model.name, by rw [Setting.pair, (Json.as_text_iff value _).mp first]⟩
  · rw [found] at second
    exact ⟨.dimensions model.dimensions, by rw [Setting.pair, (Json.as_word_iff value _).mp second]⟩
  · rw [found] at third
    exact ⟨.path model.path, by rw [Setting.pair, (Json.as_option_text_iff value _).mp third]⟩
  · rw [found] at fourth
    obtain ⟨wrapped, form⟩ := (Pooling.of_json_iff value _).mp fourth
    exact ⟨.pooling model.pooling wrapped, by rw [Setting.pair, form]⟩
  · rw [found] at fifth
    exact ⟨.segmentIds model.segmentIds, by rw [Setting.pair, (Json.as_bool_iff value _).mp fifth]⟩

theorem of_json_iff (json : Json) (model : ModelConfig) : ofJson? json = some model ↔
    ∃ settings, Json.Gives fieldNames (settings.map Setting.pair) json ∧ model = ofSettings settings :=
  Json.record_iff Setting.pair set fieldNames (by decide) ofFields? {} settings_read fields_typed json model

end ModelConfig

namespace Config

inductive Setting where
  | dbPath (value : Option String)
  | workspaceRoot (value : Option String)
  | extensions (values : List String)
  | recursive (value : Bool)
  | maxChunkSize (value : UInt64)
  | moduleFallback (value : Bool)
  | indexClasses (value : Bool)
  | searchTopK (value : UInt64)
  | model (settings : List ModelConfig.Setting) (json : Json)
      (gives : Json.Gives ModelConfig.fieldNames (settings.map ModelConfig.Setting.pair) json)

def Setting.pair : Setting → String × Json
  | .dbPath value => ("db_path", .option .text value)
  | .workspaceRoot value => ("workspace_root", .option .text value)
  | .extensions values => ("extensions", .arr (values.map .text))
  | .recursive value => ("recursive", .bool value)
  | .maxChunkSize value => ("max_chunk_size", .nat value.toNat)
  | .moduleFallback value => ("module_fallback", .bool value)
  | .indexClasses value => ("index_classes", .bool value)
  | .searchTopK value => ("search_top_k", .nat value.toNat)
  | .model _ json _ => ("model", json)

def set (config : Config) : Setting → Config
  | .dbPath value => { config with dbPath := value }
  | .workspaceRoot value => { config with workspaceRoot := value }
  | .extensions values => { config with extensions := values }
  | .recursive value => { config with recursive := value }
  | .maxChunkSize value => { config with maxChunkSize := value }
  | .moduleFallback value => { config with moduleFallback := value }
  | .indexClasses value => { config with indexClasses := value }
  | .searchTopK value => { config with searchTopK := value }
  | .model settings _ _ => { config with model := .ofSettings settings }

def ofSettings (settings : List Setting) : Config := settings.foldl set {}

theorem of_fields_iff (dbPath workspaceRoot extensions recursive maxChunkSize moduleFallback indexClasses searchTopK
      model : Option Json) (config : Config) :
    ofFields? [dbPath, workspaceRoot, extensions, recursive, maxChunkSize, moduleFallback, indexClasses, searchTopK, model] =
      some config ↔
      Json.optional ({} : Config).dbPath (Json.asOption? Json.asText?) dbPath = some config.dbPath ∧
      Json.optional ({} : Config).workspaceRoot (Json.asOption? Json.asText?) workspaceRoot = some config.workspaceRoot ∧
      Json.optional ({} : Config).extensions (Json.asList? Json.asText?) extensions = some config.extensions ∧
      Json.optional ({} : Config).recursive Json.asBool? recursive = some config.recursive ∧
      Json.optional ({} : Config).maxChunkSize Json.asWord? maxChunkSize = some config.maxChunkSize ∧
      Json.optional ({} : Config).moduleFallback Json.asBool? moduleFallback = some config.moduleFallback ∧
      Json.optional ({} : Config).indexClasses Json.asBool? indexClasses = some config.indexClasses ∧
      Json.optional ({} : Config).searchTopK Json.asWord? searchTopK = some config.searchTopK ∧
      Json.optional ({} : Config).model ModelConfig.ofJson? model = some config.model := by
  rw [ofFields?]
  simp only [Option.bind_eq_bind, Option.bind_eq_some_iff]
  constructor
  · rintro ⟨_, first, _, second, _, third, _, fourth, _, fifth, _, sixth, _, seventh, _, eighth, _, ninth, found⟩
    cases found
    exact ⟨first, second, third, fourth, fifth, sixth, seventh, eighth, ninth⟩
  · rintro ⟨first, second, third, fourth, fifth, sixth, seventh, eighth, ninth⟩
    exact ⟨_, first, _, second, _, third, _, fourth, _, fifth, _, sixth, _, seventh, _, eighth, _, ninth, rfl⟩

theorem settings_read (settings : List Setting) (once : ((settings.map Setting.pair).map Prod.fst).Nodup) :
    ofFields? (fieldNames.map fun name => (settings.map Setting.pair).lookup name) = some (ofSettings settings) := by
  have each {α : Type} (get : Config → α) (name : String) (decode : Json → Option α) :=
    Json.field_set Setting.pair set get name decode settings {} once
  refine (of_fields_iff _ _ _ _ _ _ _ _ _ _).mpr ⟨each (·.dbPath) _ _ ?_ ?_, each (·.workspaceRoot) _ _ ?_ ?_,
    each (·.extensions) _ _ ?_ ?_, each (·.recursive) _ _ ?_ ?_, each (·.maxChunkSize) _ _ ?_ ?_,
    each (·.moduleFallback) _ _ ?_ ?_, each (·.indexClasses) _ _ ?_ ?_, each (·.searchTopK) _ _ ?_ ?_,
    each (·.model) _ _ ?_ ?_⟩
  all_goals
    intro setting config key
    cases setting <;> first | rfl | exact absurd rfl key | simp only [Setting.pair, String.reduceEq] at key
  · exact (Json.as_option_text_iff _ _).mpr rfl
  · exact (Json.as_option_text_iff _ _).mpr rfl
  · exact Json.as_list_texts _
  · exact Json.as_word_nat _
  · exact Json.as_word_nat _
  · next settings json gives => exact (ModelConfig.of_json_iff json _).mpr ⟨settings, gives, rfl⟩

theorem fields_typed (given : List (String × Json)) (config : Config)
    (read : ofFields? (fieldNames.map fun name => given.lookup name) = some config) (name : String) (listed : name ∈ fieldNames)
    (value : Json) (found : given.lookup name = some value) : ∃ setting : Setting, setting.pair = (name, value) := by
  simp only [fieldNames, List.map_cons, List.map_nil, of_fields_iff] at read
  obtain ⟨first, second, third, fourth, fifth, sixth, seventh, eighth, ninth⟩ := read
  simp only [fieldNames, List.mem_cons, List.not_mem_nil, or_false] at listed
  rcases listed with rfl | rfl | rfl | rfl | rfl | rfl | rfl | rfl | rfl
  · rw [found] at first
    exact ⟨.dbPath config.dbPath, by rw [Setting.pair, (Json.as_option_text_iff value _).mp first]⟩
  · rw [found] at second
    exact ⟨.workspaceRoot config.workspaceRoot, by rw [Setting.pair, (Json.as_option_text_iff value _).mp second]⟩
  · rw [found] at third
    exact ⟨.extensions config.extensions, by rw [Setting.pair, (Json.as_texts_iff value _).mp third]⟩
  · rw [found] at fourth
    exact ⟨.recursive config.recursive, by rw [Setting.pair, (Json.as_bool_iff value _).mp fourth]⟩
  · rw [found] at fifth
    exact ⟨.maxChunkSize config.maxChunkSize, by rw [Setting.pair, (Json.as_word_iff value _).mp fifth]⟩
  · rw [found] at sixth
    exact ⟨.moduleFallback config.moduleFallback, by rw [Setting.pair, (Json.as_bool_iff value _).mp sixth]⟩
  · rw [found] at seventh
    exact ⟨.indexClasses config.indexClasses, by rw [Setting.pair, (Json.as_bool_iff value _).mp seventh]⟩
  · rw [found] at eighth
    exact ⟨.searchTopK config.searchTopK, by rw [Setting.pair, (Json.as_word_iff value _).mp eighth]⟩
  · rw [found] at ninth
    obtain ⟨settings, gives, -⟩ := (ModelConfig.of_json_iff value _).mp ninth
    exact ⟨.model settings value gives, rfl⟩

theorem of_json_iff (json : Json) (config : Config) : ofJson? json = some config ↔
    ∃ settings, Json.Gives fieldNames (settings.map Setting.pair) json ∧ config = ofSettings settings :=
  Json.record_iff Setting.pair set fieldNames (by decide) ofFields? {} settings_read fields_typed json config

theorem load_text (workspace : Workspace) (path text : String) (file : Entry.readText workspace path = .ok (some text)) :
    load workspace path = .ok (ofText text) := by
  rw [load, file]
  rfl

theorem document_settings (text : String) (json : Json) (settings : List Setting) (document : Json.Document json text)
    (gives : Json.Gives fieldNames (settings.map Setting.pair) json) : ofText text = ofSettings settings := by
  rw [ofText, (Json.read_iff text json).mpr document, Option.bind_some, (of_json_iff json _).mpr ⟨settings, gives, rfl⟩,
    Option.getD_some]

theorem document_refused (text : String) (json : Json) (document : Json.Document json text)
    (refused : ∀ settings : List Setting, ¬ Json.Gives fieldNames (settings.map Setting.pair) json) : ofText text = {} := by
  have unread : ofJson? json = none := by
    rw [Option.eq_none_iff_forall_ne_some]
    intro config found
    obtain ⟨settings, gives, -⟩ := (of_json_iff json config).mp found
    exact refused settings gives
  rw [ofText, (Json.read_iff text json).mpr document, Option.bind_some, unread, Option.getD_none]

theorem no_document (text : String) (none : ∀ json, ¬ Json.Document json text) : ofText text = {} := by
  have unread : Json.read? text = .none := by
    rw [Option.eq_none_iff_forall_ne_some]
    exact fun json found => none json ((Json.read_iff text json).mp found)
  rw [ofText, unread, Option.bind_none, Option.getD_none]

-- A fault inside the model is a value that the model cannot have.
theorem model_fault (members inner : List (Literal × Json)) (held : (some "model", .obj inner) ∈ members)
    (faulty : Json.Faulty ModelConfig.Setting.pair ModelConfig.fieldNames inner) : Json.Faulty Setting.pair fieldNames members := by
  refine ⟨"model", by decide, .inr ⟨.obj inner, List.mem_map.mpr ⟨_, List.mem_filter.mpr ⟨held, by simp⟩, rfl⟩, ?_⟩⟩
  intro setting same
  cases setting with
  | model settings json gives =>
      cases same
      exact Json.faulty_refused _ _ _ faulty settings gives
  | _ => simp only [Setting.pair, Prod.mk.injEq, String.reduceEq, false_and] at same

end Config

theorem configuration_read_from_settings (workspace : Workspace) (path text : String)
    (file : Entry.readText workspace path = .ok (some text)) :
    (∀ (settings : List Config.Setting) (json : Json), Json.Document json text →
      Json.Gives Config.fieldNames (settings.map Config.Setting.pair) json →
      Config.load workspace path = .ok (.ofSettings settings)) ∧
    (∀ members : List (Literal × Json), Json.Document (.obj members) text →
      (Json.Faulty Config.Setting.pair Config.fieldNames members ∨ ∃ inner, (some "model", .obj inner) ∈ members ∧
        Json.Faulty ModelConfig.Setting.pair ModelConfig.fieldNames inner) →
      Config.load workspace path = .ok {}) ∧
    ((∀ json, ¬ Json.Document json text) → Config.load workspace path = .ok {}) := by
  rw [Config.load_text workspace path text file]
  refine ⟨fun settings json document gives => ?_, fun members document fault => ?_, fun none => ?_⟩
  · rw [Config.document_settings text json settings document gives]
  · have faulty : Json.Faulty Config.Setting.pair Config.fieldNames members := by
      rcases fault with here | ⟨inner, held, there⟩
      · exact here
      · exact Config.model_fault members inner held there
    rw [Config.document_refused text _ document (Json.faulty_refused _ _ members faulty)]
  · rw [Config.no_document text none]

def scatteredText : String :=
  " \x7b\"x\":[\x7b\"y\":[1e5,\"\\ud800\"]\x7d],\t\"search_top_k\" : 7,\n\"model\":\x7b\"pooling\":\x7b\"mean\":null\x7d,\"z\":0,\"dimensions\":3\x7d,\"extensio\\u006es\":[]\r\x7d"

def scatteredModel : List (Literal × Json) :=
  [(some "pooling", .obj [(some "mean", .null)]), (some "z", .nat 0), (some "dimensions", .nat 3)]

def scatteredMembers : List (Literal × Json) :=
  [(some "x", .arr [.obj [(some "y", .arr [.num ⟨false, 1, 0, some 5⟩, .str none])]]), (some "search_top_k", .nat 7),
    (some "model", .obj scatteredModel), (some "extensions", .arr [])]

theorem scattered_model_given : Json.Gives ModelConfig.fieldNames
    ([ModelConfig.Setting.dimensions 3, .pooling .mean true].map ModelConfig.Setting.pair) (.obj scatteredModel) :=
  .object scatteredModel (by decide) (by decide) (.swap _ _ [])

def scatteredSettings : List Config.Setting :=
  [.model [.dimensions 3, .pooling .mean true] (.obj scatteredModel) scattered_model_given, .extensions [], .searchTopK 7]

def repeatedText : String := "\x7b\"recursive\":false,\"recursive\":false\x7d"

def textFile (text : String) : Entry := .file (.source ⟨text, .error .noTree⟩)

def configWorkspace : Workspace :=
  .dir [("scattered.json", textFile scatteredText), ("repeated.json", textFile repeatedText), ("broken.json", textFile "\x7b\x7d,")]

theorem scattered_configuration_read :
    Config.load configWorkspace "scattered.json" =
      .ok { searchTopK := 7, model := { dimensions := 3, pooling := .mean } } ∧
    Config.load configWorkspace "repeated.json" = .ok {} ∧ Config.load configWorkspace "broken.json" = .ok {} := by
  refine ⟨?_, ?_, ?_⟩
  · have document : Json.Document (.obj scatteredMembers) scatteredText := by decide +kernel
    have gives : Json.Gives Config.fieldNames (scatteredSettings.map Config.Setting.pair) (.obj scatteredMembers) :=
      .object scatteredMembers (by decide) (by decide) (List.perm_append_comm : ([_] ++ [_, _] : List _).Perm ([_, _] ++ [_]))
    exact (configuration_read_from_settings configWorkspace "scattered.json" scatteredText (by rfl)).1 _ _ document gives
  · have document : Json.Document (.obj [(some "recursive", .bool false), (some "recursive", .bool false)]) repeatedText := by
      decide +kernel
    have faulty := (configuration_read_from_settings configWorkspace "repeated.json" repeatedText (by rfl)).2.1 _ document
    exact faulty (.inl ⟨"recursive", by decide, .inl (by decide)⟩)
  · refine (configuration_read_from_settings configWorkspace "broken.json" _ (by rfl)).2.2 fun json document => ?_
    have read := (Json.read_iff _ json).mpr document
    cases read.symm.trans (show Json.read? "\x7b\x7d," = none from rfl)

end CodeIndex
