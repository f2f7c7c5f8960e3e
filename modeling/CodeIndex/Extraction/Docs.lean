import CodeIndex.Syntax
import CodeIndex.Text.Bytes
import CodeIndex.Text.Whitespace

namespace CodeIndex.Extraction

-- A node whose bytes are not whole characters of the source says nothing.
def nodeText (source : List Char) (node : Node) : List Char :=
  (Text.slice? source node.span.startByte node.span.endByte).getD []

def fieldText? (source : List Char) (node : Node) (field : String) : Option (List Char) :=
  (node.child? field).map (nodeText source)

def quoteWidth : List Char → Nat
  | '"' :: '"' :: '"' :: _ => 3
  | '\'' :: '\'' :: '\'' :: _ => 3
  | '"' :: _ => 1
  | '\'' :: _ => 1
  | _ => 0

-- As many characters go at the end as quotes open the text, whatever they are.
def stripQuotes (raw : List Char) : List Char :=
  let text := Text.trim raw
  let width := quoteWidth text
  if width = 0 then text
  else if text.length < 2 * width then []
  else Text.trim ((text.take (text.length - width)).drop width)

def cleanComment (raw : List Char) : List Char :=
  match Text.trim raw with
  | '#' :: rest => Text.trim rest
  | '/' :: '/' :: rest => Text.trim rest
  | text => text

def isDocKind (kind : String) : Bool := ["string", "string_literal", "comment"].contains kind

def isCommentKind (kind : String) : Bool :=
  ["comment", "line_comment", "block_comment"].contains kind

def leadingString? (node : Node) : Option Node := do
  let body ← node.child? "body"
  let statement ← body.children.head?
  guard (statement.kind = "expression_statement")
  let literal ← statement.children.head?
  guard (literal.kind = "string")
  return literal

def docNodes (node : Node) : List Node :=
  node.children.filter (isDocKind ·.kind) ++ (leadingString? node).toList

def docstring? (source : List Char) (node : Node) : Option (List Char) :=
  match docNodes node with
  | [] => none
  | parts => some (Text.join ['\n'] (parts.map fun part => stripQuotes (nodeText source part)))

def comments (source : List Char) (node : Node) : List (List Char) :=
  (node.children.filter (isCommentKind ·.kind)).map fun child =>
    cleanComment (nodeText source child)

end CodeIndex.Extraction
