import CodeIndex.Proofs.Json.Layout
import CodeIndex.Proofs.Store.Replacement

set_option autoImplicit false

namespace CodeIndex

theorem Json.as_word_nat (word : UInt64) : Json.asWord? (.nat word.toNat) = some word := by
  simp [Json.asWord?, Json.nat, JsonNumber.nat?, JsonNumber.ofNat, UInt64.toNat_lt_size, Option.filter]

theorem Json.optional_text (value : Option String) :
    Json.optional none (Json.asOption? Json.asText?) (value.map .text) = some value := by
  cases value <;> rfl

namespace Metadata

theorem fields_written (metadata : Metadata) : metadata.toJson.fields? fieldNames =
    some [some (.text metadata.filePath), some (.text metadata.language), some metadata.kind.toJson,
      some (.text metadata.name), metadata.parentClass.map .text, some (.nat metadata.startLine.toNat),
      some (.nat metadata.endLine.toNat)] := by
  cases parent : metadata.parentClass <;>
    simp [toJson, parent, Json.object, Json.fields?, fieldNames, Json.memberOf?, Json.valuesOf]

theorem of_json_to_json (metadata : Metadata) : ofJson? metadata.toJson = some metadata := by
  have kind : ElementKind.ofJson? metadata.kind.toJson = some metadata.kind := kind_of_name metadata.kind
  rw [ofJson?, fields_written, Option.bind_some]
  simp only [ofFields?, Json.required, kind, Json.optional_text, Json.as_word_nat]
  rfl

theorem read_written (metadata : Metadata) :
    (Json.read? metadata.toJson.compactText).bind ofJson? = some metadata := by
  rw [Json.read_compact_text, Option.bind_some, of_json_to_json]

end Metadata
end CodeIndex
