import CodeIndex.Json
import CodeIndex.Text.Digits
import CodeIndex.Text.Whitespace

namespace CodeIndex.Json

def escapeChar (c : Char) : List Char :=
  match c with
  | '"' => ['\\', '"']
  | '\\' => ['\\', '\\']
  | '\x08' => ['\\', 'b']
  | '\x0c' => ['\\', 'f']
  | '\n' => ['\\', 'n']
  | '\r' => ['\\', 'r']
  | '\t' => ['\\', 't']
  | c => if c.toNat < 0x20 then '\\' :: 'u' :: Text.hex 4 c.toNat else [c]

def quote (cs : List Char) : List Char := '"' :: cs.flatMap escapeChar ++ ['"']

def literalText : Literal → List Char
  | some text => quote text.toList
  | none => "\"\\ud800\"".toList

def paddedDecimal : (width : Nat) → (n : Nat) → List Char
  | 0, _ => []
  | width + 1, n => paddedDecimal width (n / 10) ++ [Text.digitChar (n % 10)]

def numberText (number : JsonNumber) : List Char :=
  let scale := Nat.pow 10 number.places
  (if number.negative then ['-'] else []) ++ Text.decimal (number.mantissa / scale) ++
  (if number.places = 0 then []
   else '.' :: paddedDecimal number.places (number.mantissa % scale)) ++
  match number.exponent with
  | none => []
  | some e => 'e' :: (if e < 0 then ['-'] else []) ++ Text.decimal e.natAbs

mutual

def compact : Json → List Char
  | .null => "null".toList
  | .bool true => "true".toList
  | .bool false => "false".toList
  | .num number => numberText number
  | .str value => literalText value
  | .arr items => '[' :: Text.join [','] (compactItems items) ++ [']']
  | .obj members => '\x7b' :: Text.join [','] (compactMembers members) ++ ['\x7d']

def compactItems : List Json → List (List Char)
  | [] => []
  | item :: rest => compact item :: compactItems rest

def compactMembers : List (Literal × Json) → List (List Char)
  | [] => []
  | (key, value) :: rest => (literalText key ++ ':' :: compact value) :: compactMembers rest

end

def newline (level : Nat) : List Char := '\n' :: List.replicate (2 * level) ' '

def block (level : Nat) (left right : Char) (entries : List (List Char)) : List Char :=
  if entries.isEmpty then [left, right]
  else left :: newline (level + 1) ++ Text.join (',' :: newline (level + 1)) entries ++
    newline level ++ [right]

mutual

def pretty (level : Nat) : Json → List Char
  | .null => "null".toList
  | .bool true => "true".toList
  | .bool false => "false".toList
  | .num number => numberText number
  | .str value => literalText value
  | .arr items => block level '[' ']' (prettyItems (level + 1) items)
  | .obj members => block level '\x7b' '\x7d' (prettyMembers (level + 1) members)

def prettyItems (level : Nat) : List Json → List (List Char)
  | [] => []
  | item :: rest => pretty level item :: prettyItems level rest

def prettyMembers (level : Nat) : List (Literal × Json) → List (List Char)
  | [] => []
  | (key, value) :: rest =>
    (literalText key ++ ':' :: ' ' :: pretty level value) :: prettyMembers level rest

end

def compactText (json : Json) : String := .ofList (compact json)

def prettyText (json : Json) : String := .ofList (pretty 0 json)

end CodeIndex.Json
