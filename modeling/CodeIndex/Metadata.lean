import CodeIndex.Element.Json

namespace CodeIndex

structure Metadata where
  filePath : String
  language : String
  kind : ElementKind
  name : String
  parentClass : Option String
  startLine : UInt64
  endLine : UInt64
deriving DecidableEq, Repr

namespace Metadata

def ofElement (path : String) (language : Language) (element : Element) : Metadata where
  filePath := path
  language := language.name
  kind := element.kind
  name := element.name
  parentClass := element.parentClass
  startLine := element.startLine
  endLine := element.endLine

def fieldNames : List String :=
  ["file_path", "language", "type", "name", "parent_class", "start_line", "end_line"]

def toJson (metadata : Metadata) : Json := .object (
  [("file_path", Json.text metadata.filePath),
   ("language", .text metadata.language),
   ("type", metadata.kind.toJson),
   ("name", .text metadata.name)] ++
  (metadata.parentClass.map fun name => ("parent_class", Json.text name)).toList ++
  [("start_line", .nat metadata.startLine.toNat),
   ("end_line", .nat metadata.endLine.toNat)])

def ofFields? : List (Option Json) → Option Metadata
  | [filePath, language, kind, name, parentClass, startLine, endLine] => do
    return {
      filePath := ← Json.required Json.asText? filePath
      language := ← Json.required Json.asText? language
      kind := ← Json.required ElementKind.ofJson? kind
      name := ← Json.required Json.asText? name
      parentClass := ← Json.optional none (Json.asOption? Json.asText?) parentClass
      startLine := ← Json.required Json.asWord? startLine
      endLine := ← Json.required Json.asWord? endLine }
  | _ => none

def ofJson? (json : Json) : Option Metadata := (json.fields? fieldNames).bind ofFields?

end Metadata
end CodeIndex
