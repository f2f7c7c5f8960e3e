import CodeIndex.Element
import CodeIndex.Json.Decode
import CodeIndex.Language

namespace CodeIndex

def Language.toJson (language : Language) : Json := .text language.name

def Language.ofJson? (json : Json) : Option Language := json.asChoice? Language.ofTag?

def ElementKind.toJson (kind : ElementKind) : Json := .text kind.name

def ElementKind.ofJson? (json : Json) : Option ElementKind := json.asChoice? ElementKind.ofName?

namespace Element

def fieldNames : List String :=
  ["kind", "name", "source_text", "docstring", "comments", "parent_class", "start_line", "end_line"]

def toJson (element : Element) : Json := .object [
  ("kind", element.kind.toJson),
  ("name", .text element.name),
  ("source_text", .text element.sourceText),
  ("docstring", .option .text element.docstring),
  ("comments", .arr (element.comments.map .text)),
  ("parent_class", .option .text element.parentClass),
  ("start_line", .nat element.startLine.toNat),
  ("end_line", .nat element.endLine.toNat)]

def ofFields? : List (Option Json) → Option Element
  | [kind, name, sourceText, docstring, comments, parentClass, startLine, endLine] => do
    return {
      kind := ← Json.required ElementKind.ofJson? kind
      name := ← Json.required Json.asText? name
      sourceText := ← Json.required Json.asText? sourceText
      docstring := ← Json.optional none (Json.asOption? Json.asText?) docstring
      comments := ← Json.required (Json.asList? Json.asText?) comments
      parentClass := ← Json.optional none (Json.asOption? Json.asText?) parentClass
      startLine := ← Json.required Json.asWord? startLine
      endLine := ← Json.required Json.asWord? endLine }
  | _ => none

def ofJson? (json : Json) : Option Element := (json.fields? fieldNames).bind ofFields?

def setToJson (elements : List Element) : Json :=
  .object [("elements", .arr (elements.map toJson))]

def setOfJson? (json : Json) : Option (List Element) :=
  match json.fields? ["elements"] with
  | some [elements] => Json.required (Json.asList? ofJson?) elements
  | _ => none

end Element
end CodeIndex
