import CodeIndex.Text.Whitespace

namespace CodeIndex

inductive Language where
  | python | javascript | typescript | java | go | ruby | cpp | csharp | kotlin | rust
  | unsupported
deriving DecidableEq, Repr

structure NodeTable where
  classKind : String
  functionKind : String
  nameField : String
  classNameField : String
deriving DecidableEq, Repr

namespace Language

def all : List Language :=
  [.python, .javascript, .typescript, .java, .go, .ruby, .cpp, .csharp, .kotlin, .rust]

def name : Language → String
  | .python => "python"
  | .javascript => "javascript"
  | .typescript => "typescript"
  | .java => "java"
  | .go => "go"
  | .ruby => "ruby"
  | .cpp => "cpp"
  | .csharp => "csharp"
  | .kotlin => "kotlin"
  | .rust => "rust"
  | .unsupported => "unsupported"

def supported (language : Language) : Bool := language != .unsupported

def extensions : List (String × Language) :=
  [("py", .python), ("js", .javascript), ("jsx", .javascript), ("mjs", .javascript),
   ("ts", .typescript), ("tsx", .typescript), ("java", .java), ("go", .go), ("rb", .ruby),
   ("cpp", .cpp), ("cc", .cpp), ("cxx", .cpp), ("hpp", .cpp), ("cs", .csharp), ("kt", .kotlin),
   ("kts", .kotlin), ("rs", .rust)]

def spellings : List (String × Language) :=
  all.map (fun language => (language.name, language)) ++ [("c++", .cpp), ("c#", .csharp)]

def find (table : List (String × Language)) (key : String) : Language :=
  (table.lookup key).getD .unsupported

def ofExtension (extension : String) : Language :=
  find extensions (.ofList (Text.lowerAscii (extension.toList.dropWhile (· = '.'))))

def ofName (name : String) : Language :=
  find spellings (.ofList (Text.lowerAscii (Text.trim name.toList)))

def ofTag? (tag : String) : Option Language :=
  (all ++ [Language.unsupported]).find? (·.name == tag)

def nodeTable? : Language → Option NodeTable
  | .python => some ⟨"class_definition", "function_definition", "name", "name"⟩
  | .javascript | .typescript | .kotlin =>
    some ⟨"class_declaration", "function_declaration", "name", "name"⟩
  | .java | .csharp => some ⟨"class_declaration", "method_declaration", "name", "name"⟩
  | .go => some ⟨"type_declaration", "function_declaration", "name", "name"⟩
  | .ruby => some ⟨"class", "method", "name", "name"⟩
  | .cpp => some ⟨"class_specifier", "function_definition", "name", "name"⟩
  | .rust => some ⟨"impl_item", "function_item", "name", "type"⟩
  | .unsupported => none

end Language
end CodeIndex
