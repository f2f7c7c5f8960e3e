namespace CodeIndex

structure Span where
  startByte : Nat
  endByte : Nat
  startRow : UInt64
  endRow : UInt64
deriving DecidableEq, Repr

-- A field is a name for one of the children, given by its position.
inductive Node where
  | mk (kind : String) (named : Bool) (span : Span) (fields : List (String × Nat))
    (children : List Node)

namespace Node

def kind : Node → String
  | mk kind _ _ _ _ => kind

def named : Node → Bool
  | mk _ named _ _ _ => named

def span : Node → Span
  | mk _ _ span _ _ => span

def children : Node → List Node
  | mk _ _ _ _ children => children

def child? (node : Node) (field : String) : Option Node :=
  match node with
  | mk _ _ _ fields children => (fields.lookup field).bind (children[·]?)

mutual

def size : Node → Nat
  | mk _ _ _ _ children => 1 + sizes children

def sizes : List Node → Nat
  | [] => 0
  | node :: rest => node.size + sizes rest

end

end Node

inductive ParseError where
  | unsupportedLanguage (language : String)
  | grammar (message : String)
  | noTree
deriving DecidableEq, Repr

def ParseError.message : ParseError → String
  | .unsupportedLanguage language => "unsupported language: " ++ language
  | .grammar message => "grammar rejected by tree-sitter: " ++ message
  | .noTree => "parser produced no tree"

structure Source where
  text : String
  parsed : Except ParseError Node

end CodeIndex
