import CodeIndex.Json.Token
import CodeIndex.Proofs.Digits

set_option autoImplicit false

namespace CodeIndex

namespace Token

section Numbers

def WholeText (digits : List Char) : Prop := Text.Digits digits ∧ (digits = ['0'] ∨ digits.head? ≠ some '0')

def FractionText (cs digits : List Char) : Prop :=
  (cs = [] ∧ digits = []) ∨ (cs = '.' :: digits ∧ Text.Digits digits)

def ExponentText (cs : List Char) (exponent : Option Int) : Prop :=
  (cs = [] ∧ exponent = none) ∨ ∃ mark sign digits, cs = mark :: (sign ++ digits) ∧ (mark = 'e' ∨ mark = 'E') ∧
    (sign = [] ∨ sign = ['+'] ∨ sign = ['-']) ∧ Text.Digits digits ∧
    exponent = some (if sign = ['-'] then -(Text.digitsValue digits : Int) else Text.digitsValue digits)

def signText (negative : Bool) : List Char := if negative then ['-'] else []

-- A sign, digits without leading zeros, and perhaps a fraction and an exponent. The value keeps how many
-- digits the fraction had.
def NumberText (number : JsonNumber) (cs : List Char) : Prop :=
  ∃ whole point fraction tail, cs = signText number.negative ++ (whole ++ (point ++ tail)) ∧
    WholeText whole ∧ FractionText point fraction ∧ ExponentText tail number.exponent ∧
    number.mantissa = Text.digitsValue (whole ++ fraction) ∧ number.places = fraction.length

end Numbers

section Literals

def escapes : List (Char × Char) :=
  [('"', '"'), ('\\', '\\'), ('/', '/'), ('b', '\x08'), ('f', '\x0c'), ('n', '\n'), ('r', '\r'), ('t', '\t')]

-- What may stand between the quotes of a literal: a character as it is, an escape of one letter, and an
-- escape of four hexadecimal digits.
inductive Letter where
  | plain (c : Char) (unquoted : c ≠ '"') (unslashed : c ≠ '\\') (uncontrolled : 0x20 ≤ c.toNat)
  | short (letter c : Char) (known : (letter, c) ∈ escapes)
  | unit (digits : List Char) (code : Nat) (four : digits.length = 4) (known : Text.readHex digits = some code)

namespace Letter

def text : Letter → List Char
  | .plain c _ _ _ => [c]
  | .short letter _ _ => ['\\', letter]
  | .unit digits _ _ _ => '\\' :: 'u' :: digits

def isHigh (code : Nat) : Bool := 0xD800 ≤ code && code ≤ 0xDBFF

def isLow (code : Nat) : Bool := 0xDC00 ≤ code && code ≤ 0xDFFF

-- The characters that letters stand for. A first half of a character, once read, waits for the second;
-- a half alone stands for none.
def denote : Option Nat → List Letter → Option (List Char)
  | none, [] => some []
  | some _, [] => none
  | none, .plain c _ _ _ :: rest => (denote none rest).map (c :: ·)
  | none, .short _ c _ :: rest => (denote none rest).map (c :: ·)
  | none, .unit _ code _ _ :: rest =>
      if isLow code then none
      else if isHigh code then denote (some code) rest
      else (denote none rest).map (Char.ofNat code :: ·)
  | some high, .unit _ low _ _ :: rest =>
      if isLow low then (denote none rest).map (Char.ofNat (0x10000 + (high - 0xD800) * 0x400 + (low - 0xDC00)) :: ·)
      else none
  | some _, _ :: _ => none

end Letter

def LiteralText (literal : Literal) (cs : List Char) : Prop :=
  ∃ letters : List Letter, cs = '"' :: letters.flatMap Letter.text ++ ['"'] ∧
    literal = (Letter.denote none letters).map String.ofList

end Literals

def Written : Token → List Char → Prop
  | .openBrace, cs => cs = ['\x7b']
  | .closeBrace, cs => cs = ['\x7d']
  | .openBracket, cs => cs = ['[']
  | .closeBracket, cs => cs = [']']
  | .colon, cs => cs = [':']
  | .comma, cs => cs = [',']
  | .null, cs => cs = ['n', 'u', 'l', 'l']
  | .bool true, cs => cs = ['t', 'r', 'u', 'e']
  | .bool false, cs => cs = ['f', 'a', 'l', 's', 'e']
  | .num number, cs => NumberText number cs
  | .str literal, cs => LiteralText literal cs

-- The text is that of the tokens one after another, with blanks before, between and after them.
inductive Spells : List Token → List Char → Prop where
  | done : Spells [] []
  | blank (c : Char) (tokens : List Token) (cs : List Char) (space : isSpace c = true) (later : Spells tokens cs) :
      Spells tokens (c :: cs)
  | next (token : Token) (tokens : List Token) (text cs : List Char) (written : token.Written text)
      (later : Spells tokens cs) : Spells (token :: tokens) (text ++ cs)

end Token

namespace Json

mutual

def spelled : Json → List Token
  | .null => [.null]
  | .bool value => [.bool value]
  | .num value => [.num value]
  | .str value => [.str value]
  | .arr items => .openBracket :: (spelledItems items ++ [.closeBracket])
  | .obj members => .openBrace :: (spelledMembers members ++ [.closeBrace])

def spelledItems : List Json → List Token
  | [] => []
  | item :: rest => spelled item ++ if rest.isEmpty then [] else .comma :: spelledItems rest

def spelledMembers : List (Literal × Json) → List Token
  | [] => []
  | (key, value) :: rest =>
    .str key :: .colon :: (spelled value ++ if rest.isEmpty then [] else .comma :: spelledMembers rest)

end

theorem nested (holds : Json → Prop) (null : holds .null) (bool : ∀ value, holds (.bool value))
    (num : ∀ value, holds (.num value)) (str : ∀ value, holds (.str value))
    (arr : ∀ items, (∀ item ∈ items, holds item) → holds (.arr items))
    (obj : ∀ members, (∀ member ∈ members, holds member.2) → holds (.obj members)) (json : Json) : holds json := by
  match json with
  | .null => exact null
  | .bool value => exact bool value
  | .num value => exact num value
  | .str value => exact str value
  | .arr items => exact arr items fun item _ => nested holds null bool num str arr obj item
  | .obj members => exact obj members fun member _ => nested holds null bool num str arr obj member.2
termination_by sizeOf json
decreasing_by
  · have within := List.sizeOf_lt_of_mem ‹item ∈ items›
    simp only [Json.arr.sizeOf_spec]
    omega
  · have within := List.sizeOf_lt_of_mem ‹member ∈ members›
    obtain ⟨key, value⟩ := member
    simp only [Json.obj.sizeOf_spec, Prod.mk.sizeOf_spec] at within ⊢
    omega

def Document (json : Json) (text : String) : Prop := Token.Spells (spelled json) text.toList

end Json
end CodeIndex
