import CodeIndex.Json.Token

namespace CodeIndex.Json

-- Open arrays and objects stand on a stack, so nesting has no limit. What one holds so far is in
-- reverse.
inductive Frame where
  | array (done : List Json)
  | object (done : List (Literal × Json)) (key : Literal)

inductive Expect where
  | value
  | valueOrClose
  | key (done : List (Literal × Json))
  | keyOrClose
  | colon (done : List (Literal × Json)) (key : Literal)
  | separator (done : Json)

structure Reading where
  stack : List Frame
  expect : Expect

def Reading.complete (stack : List Frame) (value : Json) : Reading := ⟨stack, .separator value⟩

def Reading.step (reading : Reading) (token : Token) : Option Reading :=
  let stack := reading.stack
  let value : Option Reading := match token with
    | .null => some (.complete stack .null)
    | .bool b => some (.complete stack (.bool b))
    | .num n => some (.complete stack (.num n))
    | .str s => some (.complete stack (.str s))
    | .openBracket => some ⟨.array [] :: stack, .valueOrClose⟩
    | .openBrace => some ⟨stack, .keyOrClose⟩
    | _ => none
  match reading.expect with
  | .value => value
  | .valueOrClose =>
    match token, stack with
    | .closeBracket, .array done :: below => some (.complete below (.arr done.reverse))
    | _, _ => value
  | .keyOrClose =>
    match token with
    | .closeBrace => some (.complete stack (.obj []))
    | .str key => some ⟨stack, .colon [] key⟩
    | _ => none
  | .key done =>
    match token with
    | .str key => some ⟨stack, .colon done key⟩
    | _ => none
  | .colon done key =>
    match token with
    | .colon => some ⟨.object done key :: stack, .value⟩
    | _ => none
  | .separator last =>
    match token, stack with
    | .comma, .array done :: below => some ⟨.array (last :: done) :: below, .value⟩
    | .closeBracket, .array done :: below => some (.complete below (.arr (last :: done).reverse))
    | .comma, .object done key :: below => some ⟨below, .key ((key, last) :: done)⟩
    | .closeBrace, .object done key :: below =>
      some (.complete below (.obj ((key, last) :: done).reverse))
    | _, _ => none

def Reading.run (reading : Reading) : List Token → Option Reading
  | [] => some reading
  | token :: tokens =>
    match reading.step token with
    | none => none
    | some next => next.run tokens

def ofTokens? (tokens : List Token) : Option Json :=
  match Reading.run ⟨[], .value⟩ tokens with
  | some ⟨[], .separator value⟩ => some value
  | _ => none

def read? (text : String) : Option Json := (Token.read text.toList).bind ofTokens?

end CodeIndex.Json
