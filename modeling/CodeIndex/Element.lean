namespace CodeIndex

inductive ElementKind where
  | function | method | «class» | module | docstring | comment
deriving DecidableEq, Repr

namespace ElementKind

def all : List ElementKind := [.function, .method, .class, .module, .docstring, .comment]

def name : ElementKind → String
  | .function => "function"
  | .method => "method"
  | .class => "class"
  | .module => "module"
  | .docstring => "docstring"
  | .comment => "comment"

def ofName? (text : String) : Option ElementKind := all.find? (·.name == text)

def unknownMessage (text : String) : String := "unknown element kind: " ++ text

end ElementKind

structure Element where
  kind : ElementKind
  name : String
  sourceText : String
  docstring : Option String
  comments : List String
  parentClass : Option String
  startLine : UInt64
  endLine : UInt64
deriving DecidableEq, Repr

namespace Element

def ofKind (kind : ElementKind) (elements : List Element) : List Element :=
  elements.filter (·.kind == kind)

def namesOfKind (kind : ElementKind) (elements : List Element) : List String :=
  (ofKind kind elements).map (·.name)

end Element
end CodeIndex
