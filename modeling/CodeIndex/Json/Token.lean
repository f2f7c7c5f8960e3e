import CodeIndex.Json
import CodeIndex.Text.Digits

namespace CodeIndex

inductive Token where
  | openBrace | closeBrace | openBracket | closeBracket | colon | comma
  | null
  | bool (value : Bool)
  | num (value : JsonNumber)
  | str (value : Literal)
deriving DecidableEq, Repr

namespace Token

inductive NumberPlace where
  | sign | zero | whole | point | fraction | exponentMark | exponentSign | exponent
deriving DecidableEq, Repr

-- Characters are in reverse. The first half of a surrogate pair waits for the second.
structure Partial where
  done : List Char
  high : Option Nat
  paired : Bool
deriving DecidableEq, Repr

inductive State where
  | between
  | word (rest : List Char) (token : Token)
  | number (place : NumberPlace) (value : JsonNumber) (negativeExponent : Bool)
  | string (read : Partial)
  | escape (read : Partial)
  | unicode (read : Partial) (digits : List Nat)
deriving DecidableEq, Repr

namespace Partial

def empty : Partial := ⟨[], none, true⟩

def settle (read : Partial) : Partial :=
  match read.high with
  | none => read
  | some _ => { read with high := none, paired := false }

def push (read : Partial) (c : Char) : Partial :=
  let read := read.settle
  { read with done := c :: read.done }

def pushUnit (read : Partial) (unit : Nat) : Partial :=
  if 0xDC00 ≤ unit ∧ unit ≤ 0xDFFF then
    match read.high with
    | some high =>
      { read with
        done := Char.ofNat (0x10000 + (high - 0xD800) * 0x400 + (unit - 0xDC00)) :: read.done
        high := none }
    | none => { read with paired := false }
  else if 0xD800 ≤ unit ∧ unit ≤ 0xDBFF then { read.settle with high := some unit }
  else read.push (Char.ofNat unit)

def literal (read : Partial) : Literal :=
  let read := read.settle
  if read.paired then some (.ofList read.done.reverse) else none

end Partial

def isSpace (c : Char) : Bool := c = ' ' || c = '\n' || c = '\t' || c = '\r'

def simpleEscape? : Char → Option Char
  | '"' => some '"'
  | '\\' => some '\\'
  | '/' => some '/'
  | 'b' => some '\x08'
  | 'f' => some '\x0c'
  | 'n' => some '\n'
  | 'r' => some '\r'
  | 't' => some '\t'
  | _ => none

def addDigit (value : JsonNumber) (c : Char) : JsonNumber :=
  { value with mantissa := 10 * value.mantissa + Text.digitValue c }

def addExponentDigit (value : JsonNumber) (c : Char) (negative : Bool) : JsonNumber :=
  let magnitude := 10 * (value.exponent.getD 0).natAbs + Text.digitValue c
  { value with exponent := some (if negative then -(magnitude : Int) else magnitude) }

def start (c : Char) : Option (List Token × State) :=
  if isSpace c then some ([], .between)
  else match c with
    | '\x7b' => some ([.openBrace], .between)
    | '\x7d' => some ([.closeBrace], .between)
    | '[' => some ([.openBracket], .between)
    | ']' => some ([.closeBracket], .between)
    | ':' => some ([.colon], .between)
    | ',' => some ([.comma], .between)
    | '"' => some ([], .string .empty)
    | 'n' => some ([], .word ['u', 'l', 'l'] .null)
    | 't' => some ([], .word ['r', 'u', 'e'] (.bool true))
    | 'f' => some ([], .word ['a', 'l', 's', 'e'] (.bool false))
    | '-' => some ([], .number .sign ⟨true, 0, 0, none⟩ false)
    | '0' => some ([], .number .zero ⟨false, 0, 0, none⟩ false)
    | c =>
      if Text.isDigit c then
        some ([], .number .whole ⟨false, Text.digitValue c, 0, none⟩ false)
      else none

def NumberPlace.final : NumberPlace → Bool
  | .zero | .whole | .fraction | .exponent => true
  | .sign | .point | .exponentMark | .exponentSign => false

def continueNumber (place : NumberPlace) (value : JsonNumber) (negative : Bool) (c : Char) :
    Option State :=
  match place with
  | .sign =>
    if c = '0' then some (.number .zero value negative)
    else if Text.isDigit c then some (.number .whole (addDigit value c) negative) else none
  | .zero =>
    if c = '.' then some (.number .point value negative)
    else if c = 'e' || c = 'E' then some (.number .exponentMark value negative) else none
  | .whole =>
    if Text.isDigit c then some (.number .whole (addDigit value c) negative)
    else if c = '.' then some (.number .point value negative)
    else if c = 'e' || c = 'E' then some (.number .exponentMark value negative) else none
  | .point =>
    if Text.isDigit c then
      some (.number .fraction { addDigit value c with places := value.places + 1 } negative)
    else none
  | .fraction =>
    if Text.isDigit c then
      some (.number .fraction { addDigit value c with places := value.places + 1 } negative)
    else if c = 'e' || c = 'E' then some (.number .exponentMark value negative) else none
  | .exponentMark =>
    if c = '+' then some (.number .exponentSign value false)
    else if c = '-' then some (.number .exponentSign value true)
    else if Text.isDigit c then
      some (.number .exponent (addExponentDigit value c negative) negative)
    else none
  | .exponentSign | .exponent =>
    if Text.isDigit c then
      some (.number .exponent (addExponentDigit value c negative) negative)
    else none

-- Between tokens blanks are skipped, and a number ends at the first character that cannot continue
-- it.
def step : State → Char → Option (List Token × State)
  | .between, c => start c
  | .word [] token, c => (start c).map fun (tokens, state) => (token :: tokens, state)
  | .word (expected :: rest) token, c => if c = expected then some ([], .word rest token) else none
  | .number place value negative, c =>
    match continueNumber place value negative c with
    | some state => some ([], state)
    | none =>
      if place.final then
        (start c).map fun (tokens, state) => (.num value :: tokens, state)
      else none
  | .string read, c =>
    if c = '"' then some ([.str read.literal], .between)
    else if c = '\\' then some ([], .escape read)
    else if c.toNat < 0x20 then none
    else some ([], .string (read.push c))
  | .escape read, c =>
    if c = 'u' then some ([], .unicode read [])
    else (simpleEscape? c).map fun escaped => ([], .string (read.push escaped))
  | .unicode read digits, c =>
    (Text.hexValue? c).map fun d =>
      match digits with
      | [a, b, e] => ([], .string (read.pushUnit (((a * 16 + b) * 16 + e) * 16 + d)))
      | _ => ([], .unicode read (digits ++ [d]))

def finish : State → Option (List Token)
  | .between => some []
  | .word [] token => some [token]
  | .number place value _ => if place.final then some [.num value] else none
  | _ => none

def readFrom (state : State) (done : List Token) : List Char → Option (List Token)
  | [] => (finish state).map (done.reverse ++ ·)
  | c :: cs =>
    match step state c with
    | none => none
    | some (tokens, next) => readFrom next (tokens.reverse ++ done) cs

def read (cs : List Char) : Option (List Token) := readFrom .between [] cs

end Token
end CodeIndex
