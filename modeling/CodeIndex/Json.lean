namespace CodeIndex

-- A literal whose escapes leave half of a surrogate pair denotes no text.
abbrev Literal := Option String

-- A number as it is written: the digits without their point, and how many of them follow it.
structure JsonNumber where
  negative : Bool
  mantissa : Nat
  places : Nat
  exponent : Option Int
deriving DecidableEq, Repr

inductive Json where
  | null
  | bool (value : Bool)
  | num (value : JsonNumber)
  | str (value : Literal)
  | arr (items : List Json)
  | obj (members : List (Literal × Json))
deriving Repr

namespace JsonNumber

def ofNat (n : Nat) : JsonNumber := ⟨false, n, 0, none⟩

def ofInt (n : Int) : JsonNumber := ⟨n < 0, n.natAbs, 0, none⟩

def nat? (number : JsonNumber) : Option Nat :=
  if number.negative || number.places ≠ 0 || number.exponent.isSome then none
  else some number.mantissa

def int? (number : JsonNumber) : Option Int :=
  if number.places ≠ 0 || number.exponent.isSome || (number.negative && number.mantissa = 0)
  then none
  else some (if number.negative then -(number.mantissa : Int) else number.mantissa)

end JsonNumber

namespace Json

def text (value : String) : Json := .str (some value)

def nat (n : Nat) : Json := .num (.ofNat n)

def int (n : Int) : Json := .num (.ofInt n)

def option (encode : α → Json) : Option α → Json
  | none => .null
  | some value => encode value

def object (members : List (String × Json)) : Json :=
  .obj (members.map fun (key, value) => (some key, value))

end Json
end CodeIndex
