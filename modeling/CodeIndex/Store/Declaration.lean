import CodeIndex.Text.Whitespace

namespace CodeIndex.Declaration

inductive Inside where
  | plain
  | lineComment
  | blockComment
  | quoted (closing : Char)
deriving DecidableEq, Repr

def closingQuote? (c : Char) : Option Char :=
  if c = '[' then some ']'
  else if ['"', '\'', '\x60'].contains c then some c
  else none

def isBlank (c : Char) : Bool := [' ', '\t', '\n', '\x0c', '\r'].contains c

def isWordChar (c : Char) : Bool := c.isAlphanum || c = '_' || c = '$' || 128 ≤ c.toNat

def skip : Inside → List Char → List Char
  | _, [] => []
  | .plain, '-' :: '-' :: rest => skip .lineComment rest
  | .plain, '/' :: '*' :: rest => skip .blockComment rest
  | .lineComment, c :: rest => skip (if c = '\n' then .plain else .lineComment) rest
  | .blockComment, '*' :: '/' :: rest => skip .plain rest
  | .blockComment, _ :: rest => skip .blockComment rest
  | _, c :: rest => if isBlank c then skip .plain rest else c :: rest

-- The closing quote stands for itself where it is doubled.
def unquote (closing : Char) : List Char → List Char × List Char
  | [] => ([], [])
  | c :: rest =>
    if c ≠ closing then
      let (text, after) := unquote closing rest
      (c :: text, after)
    else match rest with
      | [] => ([], [])
      | d :: after =>
        if d = closing && closing ≠ ']' then
          let (text, after) := unquote closing after
          (c :: text, after)
        else ([], d :: after)

def name? (statement : List Char) : Option (String × List Char) :=
  match skip .plain statement with
  | [] => none
  | c :: rest =>
    match closingQuote? c with
    | some closing =>
      let (text, after) := unquote closing rest
      some (.ofList text, after)
    | none =>
      let word := (c :: rest).takeWhile isWordChar
      if word.isEmpty then none
      else some (.ofList word, (c :: rest).dropWhile isWordChar)

def word? (word : String) (statement : List Char) : Option (List Char) :=
  let text := skip .plain statement
  if Text.lowerAscii (text.takeWhile isWordChar) = word.toList then some (text.dropWhile isWordChar)
  else none

def words? (words : List String) (statement : List Char) : Option (List Char) :=
  words.foldlM (fun rest word => word? word rest) statement

def body (inside : Inside) (depth : Nat) : List Char → List Char
  | [] => []
  | c :: rest =>
    match inside with
    | .quoted closing => c :: body (if c = closing then .plain else inside) depth rest
    | .lineComment => c :: body (if c = '\n' then .plain else inside) depth rest
    | .blockComment =>
      c :: body (if c = '*' && rest.head? = some '/' then .plain else inside) depth rest
    | .plain =>
      match closingQuote? c with
      | some closing => c :: body (.quoted closing) depth rest
      | none =>
        if c = '-' && rest.head? = some '-' then c :: body .lineComment depth rest
        else if c = '/' && rest.head? = some '*' then c :: body .blockComment depth rest
        else if c = '(' then c :: body .plain (depth + 1) rest
        else if c = ')' && depth ≤ 1 then [c]
        else c :: body .plain (if c = ')' then depth - 1 else depth) rest

-- Tables of other databases than the main one are left out.
def ofStatement? (statement : String) : Option (String × String) := do
  let rest ← words? ["create"] statement.toList
  let rest := (word? "virtual" rest).getD rest
  let rest ← word? "table" rest
  let rest := (words? ["if", "not", "exists"] rest).getD rest
  let text := skip .plain rest
  let (name, after) ← name? text
  match skip .plain after with
  | '.' :: rest =>
    guard (Text.lowerAscii name.toList = "main".toList)
    let text := skip .plain rest
    let (name, _) ← name? text
    return (name, .ofList (body .plain 0 text))
  | _ => return (name, .ofList (body .plain 0 text))

end CodeIndex.Declaration
