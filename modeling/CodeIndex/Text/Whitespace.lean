namespace CodeIndex.Text

def isBlank (c : Char) : Bool :=
  (9 ≤ c.toNat && c.toNat ≤ 13) || c.toNat = 0x20 || c.toNat = 0x85 || c.toNat = 0xA0 ||
  c.toNat = 0x1680 || (0x2000 ≤ c.toNat && c.toNat ≤ 0x200A) || c.toNat = 0x2028 ||
  c.toNat = 0x2029 || c.toNat = 0x202F || c.toNat = 0x205F || c.toNat = 0x3000

def trimEnd (cs : List Char) : List Char := (cs.reverse.dropWhile isBlank).reverse

def trim (cs : List Char) : List Char := trimEnd (cs.dropWhile isBlank)

def splitWhere (p : Char → Bool) : List Char → List (List Char)
  | [] => [[]]
  | c :: cs =>
    if p c then [] :: splitWhere p cs
    else match splitWhere p cs with
      | [] => [[c]]
      | piece :: rest => (c :: piece) :: rest

def lines (cs : List Char) : List (List Char) := splitWhere (· = '\n') cs

def words (cs : List Char) : List (List Char) := (splitWhere isBlank cs).filter (! ·.isEmpty)

def join (separator : List Char) : List (List Char) → List Char
  | [] => []
  | [piece] => piece
  | piece :: rest => piece ++ separator ++ join separator rest

def allBlank (text : String) : Bool := text.toList.all isBlank

def trimText (text : String) : String := String.ofList (trim text.toList)

def lowerAscii (cs : List Char) : List Char := cs.map Char.toLower

end CodeIndex.Text
